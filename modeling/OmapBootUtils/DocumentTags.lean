import OmapBootUtils.DocumentSettings
import OmapBootUtils.StringSettings
import OmapBootUtils.TagBuffer

/-!
tagger from the text of its configuration file to the tags of its image. A document
says what the board is; in any spelling and any blocks, the list in the image that
is written has the tags this board calls for.
-/
namespace OmapBootUtils.DocumentTags

open ByteMemory CString PackedLayout ConfigHandler ConfigValues ScannedText ConfigGrammar
  ConfigKeys TagBuilder TagWalk TagBuffer ImageCalls TaggerImage DocumentSettings
  ConfigText
open LcfgScanner (ReadResult)
open ChSections (bytesOf)

/-! ### The table of tagger -/

/-- Each setting has the room of its field. -/
def taggerTable : SettingTable TaggerObject where
  rows := variableMap
  room c := if c.type = typeS then 1024 else 4
  named c hc := by
    have hparts : ∀ c ∈ variableMap, ∀ w ∈ c.name.toList.splitOn '.', Part w := by decide +kernel
    exact way_of_parts c.name _ (hparts c hc) (List.splitOn_ne_nil _ _)
      (List.intercalate_splitOn '.').symm
  found := by decide +kernel
  apart := by decide +kernel

theorem taggerTable_types (c : CompareMap TaggerObject) (hc : c ∈ taggerTable.rows) :
    c.type = typeU32 ∨ c.type = typeS := by
  have hall : ∀ c ∈ variableMap, c.type = typeU32 ∨ c.type = typeS := by decide
  exact hall c hc

/-! ### The board of a document -/

/-- What a document says of a board; a number it does not give is 0, a string empty. -/
structure BoardSettings where
  machId : UInt32
  boardRev : UInt32
  bootargs : List UInt8
  styFile : List UInt8
  ram : List (UInt32 × UInt32)
  fbBase : UInt32
  fbSize : UInt32
  serialHigh : UInt32
  serialLow : UInt32

section Document
variable (settings : Settings)

def word (name : String) : UInt32 := (numberOn settings (wordsOf name)).getD 0

def text (name : String) : List UInt8 := (textOn settings (wordsOf name)).getD []

def boardSettings : BoardSettings where
  machId := word settings "board.mach_id"
  boardRev := word settings "board.board_rev"
  bootargs := text settings "board.bootargs"
  styFile := text settings "board.sty_file"
  ram := [(word settings "board.ram0.start", word settings "board.ram0.size"),
    (word settings "board.ram1.start", word settings "board.ram1.size")]
  fbBase := word settings "board.fb.base"
  fbSize := word settings "board.fb.size"
  serialHigh := word settings "board.serial.high"
  serialLow := word settings "board.serial.low"

/-- Every string for the board leaves room for its NUL. -/
def ShortStrings : Prop := ∀ name ∈ ["board.bootargs", "board.sty_file"],
  ∀ r ∈ flat settings, r.1 = wordsOf name → (cText r.2).length < 1024

end Document

/-- The tags a board calls for. -/
def BoardSettings.tags (s : BoardSettings) : List Tag :=
  .core 0 0 0 :: ((if s.serialHigh = 0 ∧ s.serialLow = 0 then []
      else [.serial s.serialLow s.serialHigh]) ++
    ((if s.boardRev = 0 then [] else [.revision s.boardRev]) ++
      ((s.ram.flatMap fun bank => if bank.2 = 0 then [] else [.mem bank.2 bank.1]) ++
        ((if s.bootargs.all (· == space) then [] else [.cmdline (eatSpaces s.bootargs)]) ++
          if s.fbSize = 0 then [] else [.videolfb s.fbBase s.fbSize]))))

/-- The words of the serial number do not add up to 2^32. -/
def BoardSettings.SerialKept (s : BoardSettings) : Prop :=
  (s.serialHigh = 0 ∧ s.serialLow = 0) ∨ s.serialHigh + s.serialLow ≠ 0

/-- The members of a board are those of the settings. -/
structure Represents (b : Board) (s : BoardSettings) : Prop where
  machId : b.machId = s.machId
  boardRev : b.boardRev = s.boardRev
  bootargs : cString b (boardLayout.offset "bootargs") 1024 = some s.bootargs
  styFile : cString b (boardLayout.offset "sty_file") 1024 = some s.styFile
  ram : b.ram = s.ram
  fbBase : b.fbBase = s.fbBase
  fbSize : b.fbSize = s.fbSize
  serialHigh : b.serialHigh = s.serialHigh
  serialLow : b.serialLow = s.serialLow

theorem Represents.boardTags {b : Board} {s : BoardSettings} (h : Represents b s) :
    boardTags b s.bootargs = s.tags := by
  rw [TagWalk.boardTags, tagsWith, revisionTags, memTags, cmdlineTags, videolfbTags, h.serialHigh,
    h.serialLow, h.boardRev, h.ram, h.fbSize, h.fbBase]
  rfl

/-- The list main builds has the tags of the board. -/
theorem Represents.tagsWith {b : Board} {s : BoardSettings} (h : Represents b s)
    (hserial : s.SerialKept) : tagsWith b (sumSerialTags b) s.bootargs = s.tags := by
  rw [← h.boardTags]
  refine (boardTags_eq b s.bootargs ?_).symm
  rw [h.serialHigh, h.serialLow]
  exact hserial

section Board
variable (settings : Settings) (m : Objects TaggerObject)

theorem shortStrings_fit (hshort : ShortStrings settings) : taggerTable.Fits settings := by
  intro c hc r hr hway bytes hstored
  rcases taggerTable_types c hc with htype | htype
  · have hroom : taggerTable.room c = 4 := if_neg (by rw [htype]; decide)
    have hlen := SettingOrder.stored_length c (Or.inl htype) r.2 bytes hstored
    rw [hlen, hroom, htype]
    rfl
  · have hnames : ∀ c ∈ variableMap, c.type = typeS →
        c.name ∈ ["board.bootargs", "board.sty_file"] := by decide
    have hroom : taggerTable.room c = 1024 := if_pos htype
    have hlen := hshort c.name (hnames c hc htype) r hr hway
    rw [SettingOrder.stored, if_pos htype, Option.some.injEq] at hstored
    rw [hroom, ← hstored, terminated, List.length_append, List.length_singleton]
    omega

theorem tagger_accepts :
    (lcfgAccept taggerTable.rows (pairsOf settings) (resetBoard m)).1 = .ok := by
  rw [lcfgAccept_ok_iff]
  exact fun pair _ => not_rejected_of_words taggerTable.rows taggerTable_types pair

/-- main clears the board before it reads the settings. -/
theorem resetBoard_zero (j : ℕ) (hj : j < boardLayout.size) : resetBoard m .myboard j = 0 := by
  have hat := putBytes_at (m .myboard) 0 (List.replicate boardLayout.size 0) j
    (by rwa [List.length_replicate])
  rw [Nat.zero_add, List.getElem_replicate] at hat
  exact hat

theorem word_document (hplain : PlainSettings settings) (hshort : ShortStrings settings)
    (name member : String) (hrow : boardMember name member typeU32 ∈ variableMap)
    (hmember : (⟨member, 4⟩ : Field) ∈ boardLayout) :
    (configuredBoard (pairsOf settings) m).word member = word settings name := by
  have hvalue := taggerTable.value_document settings (resetBoard m) hplain
    (shortStrings_fit settings hshort) (tagger_accepts settings m) _ hrow (Or.inl rfl) le_rfl
  have hword : (configuredBoard (pairsOf settings) m).word member =
      UInt32.ofNat (value (boardMember name member typeU32)
        (lcfgAccept taggerTable.rows (pairsOf settings) (resetBoard m)).2) := rfl
  rw [hword, hvalue, word]
  cases hnumber : numberOn settings (wordsOf name) with
  | none =>
    have hin := Layout.offset_add_width_le boardLayout (by decide) ⟨member, 4⟩ hmember
    have hzero : readBytes (resetBoard m .myboard) (boardLayout.offset member) 4 =
        List.replicate 4 0 := by
      apply List.ext_getElem
      · simp
      · intro i hi _
        rw [readBytes_length] at hi
        rw [getElem_readBytes, List.getElem_replicate]
        exact resetBoard_zero m _ (by simp only at hin; omega)
    have hname : (boardMember name member typeU32).name = name := rfl
    rw [hname, hnumber, Option.elim_none, value]
    exact congrArg (fun bytes => UInt32.ofNat (leNat bytes)) hzero
  | some v =>
    have hname : (boardMember name member typeU32).name = name := rfl
    rw [hname, hnumber, Option.elim_some, Option.getD_some, UInt32.ofNat_toNat]

theorem text_document (hplain : PlainSettings settings) (hshort : ShortStrings settings)
    (name member : String) (hrow : boardMember name member typeS ∈ variableMap)
    (hmember : (⟨member, 1024⟩ : Field) ∈ boardLayout) :
    cString (configuredBoard (pairsOf settings) m) (boardLayout.offset member) 1024 =
      some (text settings name) := by
  have hin := Layout.offset_add_width_le boardLayout (by decide) ⟨member, 1024⟩ hmember
  have hinitial : cString (resetBoard m .myboard) (boardLayout.offset member) 1024 = some [] := by
    have hzero := resetBoard_zero m (boardLayout.offset member) (by simp only at hin; omega)
    rw [cString, if_pos hzero]
  exact taggerTable.text_document settings (resetBoard m) hplain
    (shortStrings_fit settings hshort) (tagger_accepts settings m)
    (boardMember name member typeS) hrow rfl [] hinitial

/-- The board main has after the settings is that of the document. -/
theorem represents_document (hplain : PlainSettings settings) (hshort : ShortStrings settings) :
    Represents (configuredBoard (pairsOf settings) m) (boardSettings settings) := by
  have hword := word_document settings m hplain hshort
  have htext := text_document settings m hplain hshort
  constructor
  · exact hword "board.mach_id" "mach_id" (by decide) (by decide)
  · exact hword "board.board_rev" "board_rev" (by decide) (by decide)
  · exact htext "board.bootargs" "bootargs" (by decide) (by decide)
  · exact htext "board.sty_file" "sty_file" (by decide) (by decide)
  · rw [Board.ram, hword "board.ram0.start" "ram[0].start" (by decide) (by decide),
      hword "board.ram0.size" "ram[0].size" (by decide) (by decide),
      hword "board.ram1.start" "ram[1].start" (by decide) (by decide),
      hword "board.ram1.size" "ram[1].size" (by decide) (by decide)]
    rfl
  · exact hword "board.fb.base" "fb.base" (by decide) (by decide)
  · exact hword "board.fb.size" "fb.size" (by decide) (by decide)
  · exact hword "board.serial.high" "serial.high" (by decide) (by decide)
  · exact hword "board.serial.low" "serial.low" (by decide) (by decide)

end Board

def BoardSettings.listLength (s : BoardSettings) : ℕ := tagListSize s.tags

/-- main reads the settings from the file, patches the loader with the machine and the length
of the list, and behind it writes a list that is read back as the tags the board calls for. -/
def WritesImage (s : BoardSettings) (reads : List ReadResult) (m : Objects TaggerObject)
    (buffer : Memory) (sty : List UInt32) (zImage : List UInt8) : Prop :=
  ∃ config out, configFile (.inr reads) = some config ∧
    (taggerMain config m (completeEnv buffer s.listLength sty zImage)).status = .done 0 ∧
    stored (taggerMain config m (completeEnv buffer s.listLength sty zImage)).log =
      imageBytes sty s.machId (readBytes out 0 s.listLength) zImage ∧
    readTags s.listLength out = some (s.tags, s.listLength)

/-- A machine and its command line. -/
def sdpSettings : Settings :=
  .cons (bytesOf "board") (.map (.cons (bytesOf "mach_id") (.string (bytesOf "0x472"))
    (.cons (bytesOf "bootargs") (.string (bytesOf "ro")) .nil))) .nil

theorem sdp_named : NamedSettings sdpSettings :=
  ⟨by decide, ⟨by decide, trivial, by decide, trivial, trivial⟩, trivial⟩

theorem sdp_plain : PlainSettings sdpSettings :=
  ⟨by decide, ⟨by decide, trivial, by decide, trivial, trivial⟩, trivial⟩

theorem sdp_short : ShortStrings sdpSettings := by
  unfold ShortStrings
  decide +kernel

end OmapBootUtils.DocumentTags
