import OmapBootUtils.StampedBlocks
import OmapBootUtils.TagBuffer

/-!
The tag list as a function of the board. Its serial tag is there unless the two words
of the serial number add up to 0, which a wrap of the sum can make of a number that
exists. Its bytes are those of a pattern, and where the pattern has a hole the list
has a byte of the buffer it was built in.
-/
namespace OmapBootUtils.BoardTags

open ByteMemory CString PackedLayout RecordChain StampedBlocks TagBuilder TagWalk TagBuffer
open TaggerImage ConfigHandler

variable (b : Board)

/-! ### The serial number -/

theorem serial_mem_tagsWith (commandline : List UInt8) (low high : UInt32) :
    .serial low high ∈ tagsWith b (sumSerialTags b) commandline ↔
      b.serialHigh + b.serialLow ≠ 0 ∧ low = b.serialLow ∧ high = b.serialHigh := by
  have hrevision : Tag.serial low high ∉ revisionTags b := by
    unfold revisionTags
    split <;> simp
  have hmem : Tag.serial low high ∉ memTags b.ram := by
    intro h
    obtain ⟨bank, -, hbank⟩ := List.mem_flatMap.mp h
    split at hbank <;> simp at hbank
  have hcmdline : Tag.serial low high ∉ cmdlineTags commandline := by
    unfold cmdlineTags
    split <;> simp
  have hvideolfb : Tag.serial low high ∉ videolfbTags b := by
    unfold videolfbTags
    split <;> simp
  simp only [tagsWith, List.mem_append, hrevision, hmem, hcmdline, hvideolfb, List.mem_singleton,
    reduceCtorEq, false_or, or_false]
  unfold sumSerialTags
  split
  case isTrue hsum => simp [hsum]
  case isFalse hsum => simp [hsum]

/-- The list carries the serial number exactly when the board has one. -/
def SerialKept (length : ℕ) (out : Memory) : Prop :=
  ∃ tags, readTags length out = some (tags, length) ∧
    (.serial b.serialLow b.serialHigh ∈ tags ↔ ¬ (b.serialHigh = 0 ∧ b.serialLow = 0))

theorem serialKept_iff_sum (buffer out : Memory) (length : ℕ)
    (h : generateTag buffer b = some (out, length)) :
    SerialKept b length out ↔
      (b.serialHigh + b.serialLow ≠ 0 ↔ ¬ (b.serialHigh = 0 ∧ b.serialLow = 0)) := by
  obtain ⟨commandline, hargs, hlength, hfits⟩ := (generateTag_some_iff b buffer length).mp ⟨out, h⟩
  have hsize := tagListSize_eq b commandline
  obtain ⟨out', hgen, hread⟩ := readTags_inside b buffer commandline hargs (by omega)
  obtain ⟨rfl, rfl⟩ : out = out' ∧ length = _ := by simpa using h.symm.trans hgen
  have hmem : .serial b.serialLow b.serialHigh ∈ tagsWith b (sumSerialTags b) commandline ↔
      b.serialHigh + b.serialLow ≠ 0 := by
    rw [serial_mem_tagsWith]
    exact and_iff_left ⟨rfl, rfl⟩
  rw [← hmem]
  constructor
  · intro hkept
    obtain ⟨tags, htags, hserial⟩ := hkept
    obtain rfl : _ = tags := congrArg Prod.fst (Option.some.inj (hread.symm.trans htags))
    exact hserial
  · intro hserial
    exact ⟨_, hread, hserial⟩

/-- A list keeps the serial number exactly when its words do not add up to 2^32. -/
theorem serial_kept_iff (buffer out : Memory) (length : ℕ)
    (h : generateTag buffer b = some (out, length)) :
    SerialKept b length out ↔
      (b.serialHigh = 0 ∧ b.serialLow = 0) ∨ b.serialHigh + b.serialLow ≠ 0 := by
  rw [serialKept_iff_sum b buffer out length h]
  by_cases hboth : b.serialHigh = 0 ∧ b.serialLow = 0
  · simp [hboth]
  · simp [hboth]

/-- serial.high=0x80000000 and serial.low=0x12, with a revision and a command line. -/
def numberedPairs : List Pair :=
  [("board.board_rev", [0x32, 0x30]), ("board.bootargs", [0x20, 0x72, 0x6F]),
    ("board.serial.high", [0x38, 0x30, 0x30, 0x30, 0x30, 0x30, 0x30, 0x30]),
    ("board.serial.low", [0x31, 0x32])]

theorem serial_kept_iff_numbered :
    ∃ out length, generateTag (fun _ => 0xAA) (configuredBoard numberedPairs fun _ _ => 0) =
        some (out, length) ∧
      (SerialKept (configuredBoard numberedPairs fun _ _ => 0) length out ↔
        ((configuredBoard numberedPairs fun _ _ => 0).serialHigh = 0 ∧
            (configuredBoard numberedPairs fun _ _ => 0).serialLow = 0) ∨
          (configuredBoard numberedPairs fun _ _ => 0).serialHigh +
            (configuredBoard numberedPairs fun _ _ => 0).serialLow ≠ 0) := by
  have hargs : (configuredBoard numberedPairs fun _ _ => 0).bootargs = some [0x20, 0x72, 0x6F] := by
    decide +kernel
  obtain ⟨out, hgen⟩ := (generateTag_some_iff (configuredBoard numberedPairs fun _ _ => 0)
    (fun _ => 0xAA) _).mpr ⟨_, hargs, rfl, by decide +kernel⟩
  exact ⟨out, _, hgen, serial_kept_iff (configuredBoard numberedPairs fun _ _ => 0) _ out _ hgen⟩

/-- serial.high=0xFFFFFFFF and serial.low=1. -/
def wrappedSerial : List Pair :=
  [("board.serial.high", [0x30, 0x78, 0x46, 0x46, 0x46, 0x46, 0x46, 0x46, 0x46, 0x46]),
    ("board.serial.low", [0x31])]

/-- A serial number whose words add up to 2^32 is dropped. -/
theorem wrapped_serial_dropped :
    ¬ ∀ pairs m buffer out length, generateTag buffer (configuredBoard pairs m) =
      some (out, length) → SerialKept (configuredBoard pairs m) length out := by
  intro h
  have hargs : (configuredBoard wrappedSerial fun _ _ => 0).bootargs = some [] := by
    decide +kernel
  obtain ⟨out, hgen⟩ := (generateTag_some_iff (configuredBoard wrappedSerial fun _ _ => 0)
    (fun _ => 0) _).mpr ⟨_, hargs, rfl, by decide +kernel⟩
  have hiff := (serialKept_iff_sum _ _ out _ hgen).mp (h wrappedSerial _ _ out _ hgen)
  exact absurd hiff (by decide +kernel)

/-! ### The bytes of one tag -/

/-- Words of four bytes at these offsets, apart from each other and inside the block. -/
def Placed (len : ℕ) (offsets : List ℕ) : Prop :=
  (offsets.Pairwise fun i j => i + 4 ≤ j ∨ j + 4 ≤ i) ∧ ∀ i ∈ offsets, i + 4 ≤ len

instance (len : ℕ) (offsets : List ℕ) : Decidable (Placed len offsets) :=
  inferInstanceAs (Decidable (_ ∧ _))

/-- Every byte of the block belongs to one of the words. -/
def Covered (len : ℕ) (offsets : List ℕ) : Prop := ∀ i < len, ∃ off ∈ offsets, off ≤ i ∧ i < off + 4

instance (len : ℕ) (offsets : List ℕ) : Decidable (Covered len offsets) :=
  inferInstanceAs (Decidable (∀ i < len, _))

theorem determined_wordsPattern_iff (len : ℕ) (words : List (ℕ × UInt32)) :
    Determined (wordsPattern len words) ↔ Covered len (words.map Prod.fst) := by
  simp only [Determined, hole_wordsPattern, Covered, List.mem_map, Prod.exists]
  constructor
  · intro h i hi
    by_contra hnone
    refine h i ⟨hi, ?_⟩
    intro w hw hin
    exact hnone ⟨w.1, ⟨w.1, w.2, hw, rfl⟩, hin⟩
  · intro h i hhole
    obtain ⟨off, ⟨off', v, hw, rfl⟩, hin⟩ := h i hhole.1
    exact hhole.2 (off', v) hw hin

/-- What putWordTag stores, by offset. -/
def storedMembers (tag : UInt32) (type : Layout) (members : List (String × UInt32)) :
    List (ℕ × UInt32) :=
  storedWords tag (tagSize type) (members.map fun m => (inUnion type m.1, m.2))

def tagPattern (tag : UInt32) (type : Layout) (members : List (String × UInt32)) : Pattern :=
  wordsPattern (4 * tagSize type) (storedMembers tag type members)

def memberOffsets (type : Layout) (members : List (String × UInt32)) : List ℕ :=
  4 :: 0 :: members.map fun m => inUnion type m.1

theorem storedMembers_offsets (tag : UInt32) (type : Layout) (members : List (String × UInt32)) :
    (storedMembers tag type members).map Prod.fst = memberOffsets type members := by
  simp [storedMembers, storedWords, memberOffsets]

theorem putWordTag_stamps (tag : UInt32) (type : Layout) (members : List (String × UInt32))
    (hsmall : tagSize type < 2 ^ 32)
    (hplaced : Placed (4 * tagSize type) (memberOffsets type members)) :
    Stamps bufferSize (putWordTag tag type members) (tagPattern tag type members) := by
  intro c hfits
  rw [tagPattern, wordsPattern_length] at hfits
  rw [← storedMembers_offsets tag] at hplaced
  have hlen : ∀ w ∈ storedMembers tag type members, w.1 + 4 ≤ 4 * tagSize type := fun w hw =>
    hplaced.2 w.1 (List.mem_map_of_mem hw)
  have hput := putWords_wordsPattern bufferSize (4 * tagSize type) c _ hlen hfits
  rw [storedMembers, ← putTag_eq] at hput
  obtain ⟨-, hsize⟩ := putTag_size tag (tagSize type) _ c _ (List.pairwise_map.mp hplaced.1) hput
  rw [putWordTag, hput, Option.map_some, tagNext, hsize, toNat_ofNat_words _ hsmall]
  simp only [tagPattern, storedMembers, wordsPattern_length]

/-- The text of an ATAG_CMDLINE lies over its header. -/
def textPattern (p : List UInt8) : Pattern :=
  overlay (wordsPattern (4 * cmdlineWords p) (storedWords atagCmdline (cmdlineWords p) [])) 8
    (terminated p)

theorem textPattern_length (p : List UInt8) : (textPattern p).length = 4 * cmdlineWords p := by
  rw [textPattern, overlay_length, wordsPattern_length]

/-- The text ends its tag exactly if it and its NUL are a whole number of words. -/
theorem determined_textPattern_iff (p : List UInt8) :
    Determined (textPattern p) ↔ p.length % 4 = 3 := by
  have hwords := cmdlineWords_eq p
  have hterm : (terminated p).length = p.length + 1 := by simp [terminated]
  have hhole : ∀ i, Hole (textPattern p) i ↔ i < 4 * cmdlineWords p ∧ p.length + 9 ≤ i := by
    intro i
    rw [textPattern, hole_overlay, hole_wordsPattern, hterm]
    simp only [storedWords, List.mem_cons, List.not_mem_nil, or_false, forall_eq_or_imp, forall_eq]
    omega
  unfold Determined
  simp only [hhole]
  constructor
  · intro h
    have := h (p.length + 9)
    omega
  · intro h i
    omega

theorem putCmdlineTag_stamps (p : List UInt8) (hlen : p.length < 2 ^ 32 - 12) :
    Stamps bufferSize (putCmdlineTag p) (textPattern p) := by
  intro c hfits
  rw [textPattern_length] at hfits ⊢
  have hwords := cmdlineWords_eq p
  have hterm : (terminated p).length = p.length + 1 := by simp [terminated]
  have hapart : Apart (storedWords atagCmdline (cmdlineWords p) []) := by
    simp [storedWords, Apart]
  have hput := putWords_wordsPattern bufferSize (4 * cmdlineWords p) c
    (storedWords atagCmdline (cmdlineWords p) []) (by simp [storedWords]; omega) hfits
  rw [← putTag_eq] at hput
  obtain ⟨-, hsize⟩ := putTag_size _ _ _ c _ hapart hput
  have hstamp := putBytes_stamp c.mem c.pos 8 (wordsPattern (4 * cmdlineWords p)
    (storedWords atagCmdline (cmdlineWords p) [])) (terminated p)
    (by rw [hterm, wordsPattern_length]; omega)
  have hsize' : readU32 (stamp c.mem c.pos (textPattern p)) c.pos =
      UInt32.ofNat (cmdlineWords p) := by
    rw [← hsize, textPattern, ← hstamp]
    exact readU32_congr _ _ c.pos fun j _ hlt => putBytes_outside _ _ _ j (by omega)
  rw [putCmdlineTag, hput, show tagHeader.size = 8 from rfl]
  simp only [Option.bind_eq_bind, Option.bind_some]
  rw [Cursor.put_inside _ _ _ _ (by rw [hterm]; simp only; omega)]
  simp only [Option.bind_some]
  rw [hstamp, ← textPattern, tagNext, hsize', toNat_ofNat_words _ (by omega)]
  rfl

/-! ### The bytes of the list -/

def startPattern : Pattern :=
  tagPattern atagCore tagCore [("flags", 0), ("pagesize", 0), ("rootdev", 0)]

def serialPattern : Pattern :=
  if b.serialHigh + b.serialLow = 0 then []
  else tagPattern atagSerial tagSerialnr [("low", b.serialLow), ("high", b.serialHigh)]

def revisionPattern : Pattern :=
  if b.boardRev = 0 then [] else tagPattern atagRevision tagRevision [("rev", b.boardRev)]

def bankPattern (bank : UInt32 × UInt32) : Pattern :=
  if bank.2 = 0 then [] else tagPattern atagMem tagMem32 [("start", bank.1), ("size", bank.2)]

def cmdlinePattern (commandline : List UInt8) : Pattern :=
  if eatSpaces commandline = [] then [] else textPattern (eatSpaces commandline)

def videolfbPattern : Pattern :=
  if b.fbSize = 0 then []
  else tagPattern atagVideolfb tagVideolfb [("lfb_base", b.fbBase), ("lfb_size", b.fbSize)]

def endPattern : Pattern := wordsPattern 8 (storedWords atagNone 0 [])

def listPattern (commandline : List UInt8) : Pattern :=
  (startPattern ++ (serialPattern b ++ (revisionPattern b ++ (b.ram.flatMap bankPattern ++
    (cmdlinePattern commandline ++ videolfbPattern b))))) ++ endPattern

theorem setupStartTag_stamps : Stamps bufferSize setupStartTag startPattern :=
  putWordTag_stamps _ _ _ (by decide) (by decide)

theorem setupSerialTag_stamps : Stamps bufferSize (setupSerialTag b) (serialPattern b) :=
  Stamps.unless _ (putWordTag_stamps _ _ _ (by decide) (by
    change Placed 16 [4, 0, 8, 12]
    decide))

theorem setupRevisionTag_stamps : Stamps bufferSize (setupRevisionTag b) (revisionPattern b) :=
  Stamps.unless _ (putWordTag_stamps _ _ _ (by decide) (by
    change Placed 12 [4, 0, 8]
    decide))

theorem setupMemoryTag_stamps (bank : UInt32 × UInt32) :
    Stamps bufferSize (setupMemoryTag bank) (bankPattern bank) :=
  Stamps.unless _ (putWordTag_stamps _ _ _ (by decide) (by
    change Placed 16 [4, 0, 12, 8]
    decide))

theorem setupVideolfbTag_stamps : Stamps bufferSize (setupVideolfbTag b) (videolfbPattern b) :=
  Stamps.unless _ (putWordTag_stamps _ _ _ (by decide) (by
    change Placed 32 [4, 0, 16, 20]
    decide))

theorem setupMemoryTags_stamps (banks : List (UInt32 × UInt32)) :
    Stamps bufferSize (fun c => banks.foldlM (fun params bank => setupMemoryTag bank params) c)
      (banks.flatMap bankPattern) := by
  induction banks with
  | nil => exact Stamps.nothing bufferSize
  | cons bank banks ih =>
    rw [List.flatMap_cons]
    exact (setupMemoryTag_stamps bank).append ih

theorem setupCommandlineTag_stamps (commandline : List UInt8) (h : b.bootargs = some commandline) :
    Stamps bufferSize (setupCommandlineTag b) (cmdlinePattern commandline) := by
  have hshort : (eatSpaces commandline).length < 2 ^ 32 - 12 := by
    have hle : (eatSpaces commandline).length ≤ commandline.length :=
      (List.dropWhile_suffix _).length_le
    have hlen := (cString_spec _ _ _ _ h).1
    have hsize : boardLayout.size - boardLayout.offset "bootargs" = 2080 := by decide
    omega
  have heq : setupCommandlineTag b = fun c => if eatSpaces commandline = [] then some c
      else putCmdlineTag (eatSpaces commandline) c := by
    funext c
    rw [setupCommandlineTag, h]
    rfl
  rw [heq]
  exact Stamps.unless _ (putCmdlineTag_stamps _ hshort)

theorem setupEndTag_stamps : Stamps bufferSize setupEndTag endPattern := by
  intro c hfits
  rw [endPattern, wordsPattern_length] at hfits ⊢
  have hput := putWords_wordsPattern bufferSize 8 c (storedWords atagNone 0 [])
    (by simp [storedWords]) hfits
  rw [← putTag_eq] at hput
  rw [setupEndTag, hput]
  rfl

theorem builders_stamp (commandline : List UInt8) (h : b.bootargs = some commandline) :
    Stamps bufferSize (fun c => ((setupStartTag c).bind fun c => (setupSerialTag b c).bind fun c =>
      (setupRevisionTag b c).bind fun c => (setupMemoryTags b c).bind fun c =>
        (setupCommandlineTag b c).bind (setupVideolfbTag b)).bind setupEndTag)
      (listPattern b commandline) :=
  Stamps.append (setupStartTag_stamps.append <| (setupSerialTag_stamps b).append <|
    (setupRevisionTag_stamps b).append <| (setupMemoryTags_stamps b.ram).append <|
      (setupCommandlineTag_stamps b commandline h).append (setupVideolfbTag_stamps b))
    setupEndTag_stamps

/-- A list that fits is its pattern over the buffer. -/
theorem generateTag_stamps (buffer : Memory) (commandline : List UInt8)
    (hargs : b.bootargs = some commandline)
    (hfits : (listPattern b commandline).length ≤ bufferSize) :
    generateTag buffer b = some (stamp buffer 0 (listPattern b commandline),
      (listPattern b commandline).length) := by
  have hstart : (⟨0, buffer⟩ : Cursor).pos + (listPattern b commandline).length ≤ bufferSize := by
    rwa [Nat.zero_add]
  have hdone := congrArg (Option.map fun c => (c.mem, c.pos))
    (builders_stamp b commandline hargs ⟨0, buffer⟩ hstart)
  rw [Option.map_bind] at hdone
  rw [generateTag_eq]
  refine hdone.trans ?_
  rw [Option.map_some, Nat.zero_add]

theorem listPattern_length (commandline : List UInt8) :
    (listPattern b commandline).length = listBytes b commandline := by
  have htag : ∀ tag type members, (tagPattern tag type members).length = 4 * tagSize type :=
    fun tag type members => wordsPattern_length _ _
  have hstart : startPattern.length = 20 := htag _ _ _
  have hserial : (serialPattern b).length =
      if b.serialHigh + b.serialLow = 0 then 0 else 16 := by
    unfold serialPattern
    split
    · rfl
    · exact htag _ _ _
  have hrevision : (revisionPattern b).length = if b.boardRev = 0 then 0 else 12 := by
    unfold revisionPattern
    split
    · rfl
    · exact htag _ _ _
  have hvideolfb : (videolfbPattern b).length = if b.fbSize = 0 then 0 else 32 := by
    unfold videolfbPattern
    split
    · rfl
    · exact htag _ _ _
  have hbanks : ∀ banks : List (UInt32 × UInt32),
      (banks.flatMap bankPattern).length = 16 * banks.countP (·.2 ≠ 0) := by
    intro banks
    induction banks with
    | nil => rfl
    | cons bank banks ih =>
      have hmem := htag atagMem tagMem32 [("start", bank.1), ("size", bank.2)]
      rw [List.flatMap_cons, List.length_append, ih, bankPattern]
      by_cases h : bank.2 = 0
      · simp [h]
      · rw [if_neg h, hmem, List.countP_cons_of_pos (by simpa using h),
          show tagSize tagMem32 = 4 from rfl]
        omega
  have hcmdline : (cmdlinePattern commandline).length = cmdlineBytes commandline := by
    unfold cmdlinePattern cmdlineBytes
    simp only [eatSpaces_eq_nil_iff]
    split
    · rfl
    · rw [textPattern_length, cmdlineWords_eq]
  have hend : endPattern.length = 8 := wordsPattern_length _ _
  simp only [listPattern, List.length_append, hstart, hserial, hrevision, hvideolfb, hbanks,
    hcmdline, hend, listBytes]
  omega

/-! ### Two buffers -/

theorem determined_tagPattern_iff (tag : UInt32) (type : Layout)
    (members : List (String × UInt32)) :
    Determined (tagPattern tag type members) ↔
      Covered (4 * tagSize type) (memberOffsets type members) := by
  rw [tagPattern, determined_wordsPattern_iff, storedMembers_offsets]

theorem determined_unless_iff (skip : Prop) [Decidable skip] (p : Pattern) :
    Determined (if skip then [] else p) ↔ skip ∨ Determined p := by
  by_cases h : skip
  · simp [h]
  · simp [h]

theorem determined_banks (banks : List (UInt32 × UInt32)) :
    Determined (banks.flatMap bankPattern) := by
  induction banks with
  | nil => exact determined_nil
  | cons bank banks ih =>
    rw [List.flatMap_cons, determined_append_iff]
    refine ⟨(determined_unless_iff _ _).mpr (Or.inr ?_), ih⟩
    apply (determined_tagPattern_iff _ _ _).mpr
    change Covered 16 [4, 0, 12, 8]
    decide

/-- The holes of a list are the fields of an ATAG_VIDEOLFB that its setup function is not
interested in, and the bytes between the command line and the end of its last word. -/
theorem determined_listPattern_iff (commandline : List UInt8) :
    Determined (listPattern b commandline) ↔
      b.fbSize = 0 ∧ (eatSpaces commandline = [] ∨ (eatSpaces commandline).length % 4 = 3) := by
  have hstart : Determined startPattern :=
    (determined_tagPattern_iff _ _ _).mpr (by decide)
  have hserial : Determined (serialPattern b) := by
    apply (determined_unless_iff _ _).mpr
    refine Or.inr ((determined_tagPattern_iff _ _ _).mpr ?_)
    change Covered 16 [4, 0, 8, 12]
    decide
  have hrevision : Determined (revisionPattern b) := by
    apply (determined_unless_iff _ _).mpr
    refine Or.inr ((determined_tagPattern_iff _ _ _).mpr ?_)
    change Covered 12 [4, 0, 8]
    decide
  have hvideolfb : Determined (videolfbPattern b) ↔ b.fbSize = 0 := by
    have hholes : ¬ Covered 32 [4, 0, 16, 20] := by decide
    rw [videolfbPattern, determined_unless_iff, determined_tagPattern_iff]
    exact or_iff_left hholes
  have hcmdline : Determined (cmdlinePattern commandline) ↔
      eatSpaces commandline = [] ∨ (eatSpaces commandline).length % 4 = 3 := by
    rw [cmdlinePattern, determined_unless_iff, determined_textPattern_iff]
  have hend : Determined endPattern := by
    apply (determined_wordsPattern_iff _ _).mpr
    change Covered 8 [4, 0]
    decide
  simp only [listPattern, determined_append_iff, hstart, hserial, hrevision, determined_banks,
    hcmdline, hvideolfb, hend, true_and, and_true]
  exact and_comm

/-- The list has the same length and bytes in any buffer, and tagger the same output. -/
structure FunctionOfBoard : Prop where
  list : ∀ buffer₁ buffer₂, ∃ out₁ out₂ length,
    generateTag buffer₁ b = some (out₁, length) ∧ generateTag buffer₂ b = some (out₂, length) ∧
      readBytes out₁ 0 length = readBytes out₂ 0 length
  output : ∀ env buffer, taggerBuild b { env with buffer := buffer } = taggerBuild b env

theorem sameList_iff (commandline : List UInt8) (hargs : b.bootargs = some commandline)
    (hfits : listBytes b commandline ≤ bufferSize) :
    (∀ buffer₁ buffer₂, ∃ out₁ out₂ length, generateTag buffer₁ b = some (out₁, length) ∧
      generateTag buffer₂ b = some (out₂, length) ∧
        readBytes out₁ 0 length = readBytes out₂ 0 length) ↔
      Determined (listPattern b commandline) := by
  rw [← listPattern_length] at hfits
  have hgen := fun buffer => generateTag_stamps b buffer commandline hargs hfits
  rw [← readBytes_stamp_iff 0]
  constructor
  · intro h s t
    obtain ⟨out₁, out₂, length, hone, htwo, hread⟩ := h s t
    obtain ⟨rfl, rfl⟩ := Prod.mk.inj (Option.some.inj ((hgen s).symm.trans hone))
    obtain ⟨rfl, -⟩ := Prod.mk.inj (Option.some.inj ((hgen t).symm.trans htwo))
    exact hread
  · intro h buffer₁ buffer₂
    exact ⟨_, _, _, hgen buffer₁, hgen buffer₂, h buffer₁ buffer₂⟩

/-- main copies the list only. -/
theorem taggerBuild_buffer (env : TaggerEnv) (buffer out₁ out₂ : Memory) (length : ℕ)
    (hone : generateTag env.buffer b = some (out₁, length))
    (htwo : generateTag buffer b = some (out₂, length))
    (hread : readBytes out₁ 0 length = readBytes out₂ 0 length) :
    taggerBuild b { env with buffer := buffer } = taggerBuild b env := by
  unfold taggerBuild
  simp only [hone, htwo, hread]

/-- The list is a function of the board exactly when it has no framebuffer and its
command line ends with a word. -/
theorem functionOfBoard_iff (commandline : List UInt8) (hargs : b.bootargs = some commandline)
    (hfits : listBytes b commandline ≤ bufferSize) :
    FunctionOfBoard b ↔
      b.fbSize = 0 ∧ (eatSpaces commandline = [] ∨ (eatSpaces commandline).length % 4 = 3) := by
  rw [← determined_listPattern_iff, ← sameList_iff b commandline hargs hfits]
  constructor
  · intro h
    exact h.list
  · intro h
    refine ⟨h, ?_⟩
    intro env buffer
    obtain ⟨out₁, out₂, length, hone, htwo, hread⟩ := h env.buffer buffer
    exact taggerBuild_buffer b env buffer out₁ out₂ length hone htwo hread

theorem functionOfBoard_iff_console :
    FunctionOfBoard consoleBoard ↔
      consoleBoard.fbSize = 0 ∧ (eatSpaces [0x20, 0x72, 0x6F] = [] ∨
        (eatSpaces [0x20, 0x72, 0x6F]).length % 4 = 3) :=
  functionOfBoard_iff consoleBoard [0x20, 0x72, 0x6F] (by decide) (by decide)

/-- The command line of two characters. -/
theorem short_cmdline_keeps_buffer :
    ¬ ∀ pairs m buffer, InBuffer buffer (configuredBoard pairs m) →
      FunctionOfBoard (configuredBoard pairs m) := by
  intro h
  have hargs : (configuredBoard [("board.bootargs", [0x72, 0x6F])] fun _ _ => 0).bootargs =
      some [0x72, 0x6F] := configuredBoard_bootargs _ _ (by decide) (by decide)
  have hfits : listBytes (configuredBoard [("board.bootargs", [0x72, 0x6F])] fun _ _ => 0)
      [0x72, 0x6F] ≤ bufferSize := by decide +kernel
  have hlist := (h _ _ (fun _ => 0) ((inBuffer_iff _ _).mpr ⟨_, hargs, hfits⟩)).list
  rw [sameList_iff _ _ hargs hfits, determined_listPattern_iff] at hlist
  exact absurd hlist.2 (by decide)

end OmapBootUtils.BoardTags
