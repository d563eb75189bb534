import OmapBootUtils.TaggerImage

/-!
Whether the tag list stays in its buffer. Its length is the sum of the tags the
board calls for, one of which grows with the command line; the list is built
inside the 1024 bytes main passes exactly if that sum is no more.
-/
namespace OmapBootUtils.TagBuffer

open ByteMemory CString PackedLayout RecordChain TagBuilder TagWalk ConfigHandler TaggerImage

/-- Every byte the setup functions write lies in the buffer, and so does the end. -/
def InBuffer (buffer : Memory) (b : Board) : Prop :=
  ∃ out length, generateTag buffer b = some (out, length) ∧ length ≤ bufferSize

/-- The bytes of the ATAG_CMDLINE: none for a line of spaces. -/
def cmdlineBytes (commandline : List UInt8) : ℕ :=
  if commandline.all (· == space) then 0
  else 4 * (((eatSpaces commandline).length + 12) / 4)

/-- ATAG_CORE and ATAG_NONE, and the tags that depend on the board. -/
def listBytes (b : Board) (commandline : List UInt8) : ℕ :=
  28 + (if b.serialHigh + b.serialLow = 0 then 0 else 16) + (if b.boardRev = 0 then 0 else 12) +
    16 * b.ram.countP (·.2 ≠ 0) + cmdlineBytes commandline + if b.fbSize = 0 then 0 else 32

variable (b : Board)

theorem span_memTags (banks : List (UInt32 × UInt32)) :
    tagFormat.span (memTags banks) = 16 * banks.countP (·.2 ≠ 0) := by
  induction banks with
  | nil => rfl
  | cons bank banks ih =>
    have hmem : tagFormat.width (.mem bank.2 bank.1) = 16 := rfl
    rw [memTags, List.flatMap_cons, Format.span_append, ← memTags, ih]
    by_cases h : bank.2 = 0
    · simp [h]
    · simp [h, hmem]
      omega

theorem span_cmdlineTags (commandline : List UInt8) :
    tagFormat.span (cmdlineTags commandline) = cmdlineBytes commandline := by
  unfold cmdlineTags cmdlineBytes
  split
  · rfl
  · simp [tagFormat, Tag.words, cmdlineWords_eq]

/-- The length of the list is that of its tags. -/
theorem tagListSize_eq (commandline : List UInt8) :
    tagListSize (tagsWith b (sumSerialTags b) commandline) = listBytes b commandline := by
  have hcore : tagFormat.span [.core 0 0 0] = 20 := rfl
  have hserial : tagFormat.span (sumSerialTags b) =
      if b.serialHigh + b.serialLow = 0 then 0 else 16 := by
    unfold sumSerialTags
    split <;> rfl
  have hrevision : tagFormat.span (revisionTags b) = if b.boardRev = 0 then 0 else 12 := by
    unfold revisionTags
    split <;> rfl
  have hvideolfb : tagFormat.span (videolfbTags b) = if b.fbSize = 0 then 0 else 32 := by
    unfold videolfbTags
    split <;> rfl
  have hheader : tagHeader.size = 8 := rfl
  rw [tagListSize, tagsWith]
  simp only [Format.span_append, hcore, hserial, hrevision, hvideolfb, hheader, span_memTags,
    span_cmdlineTags, listBytes]
  omega

/-- The list is built exactly if the command line ends inside the board and the tags
add up to at most 1024 bytes, which is the length returned. -/
theorem generateTag_some_iff (buffer : Memory) (length : ℕ) :
    (∃ out, generateTag buffer b = some (out, length)) ↔
      ∃ commandline, b.bootargs = some commandline ∧ length = listBytes b commandline ∧
        length ≤ bufferSize := by
  cases hargs : b.bootargs with
  | none => simp [generateTag_unterminated b buffer hargs]
  | some commandline =>
    have hsize := tagListSize_eq b commandline
    by_cases hfits : listBytes b commandline ≤ bufferSize
    · obtain ⟨mem, hgen, _⟩ := generateTag_inside b buffer commandline hargs (by omega)
      rw [hsize] at hgen
      constructor
      · rintro ⟨out, hout⟩
        obtain ⟨rfl, rfl⟩ : mem = out ∧ listBytes b commandline = length := by
          simpa using hgen.symm.trans hout
        exact ⟨commandline, rfl, rfl, hfits⟩
      · rintro ⟨commandline', hargs', rfl, _⟩
        obtain rfl := Option.some.inj hargs'
        exact ⟨mem, hgen⟩
    · rw [generateTag_outside b buffer commandline hargs (by omega)]
      apply iff_of_false (by simp)
      rintro ⟨commandline', hargs', rfl, hle⟩
      obtain rfl := Option.some.inj hargs'
      exact hfits hle

/-- The list stays in the buffer exactly if the command line ends inside the board
and the tags add up to at most 1024 bytes. -/
theorem inBuffer_iff (buffer : Memory) :
    InBuffer buffer b ↔
      ∃ commandline, b.bootargs = some commandline ∧ listBytes b commandline ≤ bufferSize := by
  constructor
  · rintro ⟨out, length, hgen, _⟩
    obtain ⟨commandline, hargs, rfl, hfits⟩ := (generateTag_some_iff b buffer length).mp ⟨out, hgen⟩
    exact ⟨commandline, hargs, hfits⟩
  · rintro ⟨commandline, hargs, hfits⟩
    obtain ⟨out, hgen⟩ :=
      (generateTag_some_iff b buffer _).mpr ⟨commandline, hargs, rfl, hfits⟩
    exact ⟨out, _, hgen, hfits⟩

/-- The board main has after the pairs of a configuration file. -/
def configuredBoard (pairs : List Pair) (m : Objects TaggerObject) : Board :=
  (lcfgAccept variableMap pairs (resetBoard m)).2 .myboard

/-- A configuration with a command line only; it keeps its value up to 1023 characters. -/
theorem configuredBoard_bootargs (text : List UInt8) (m : Objects TaggerObject)
    (hzero : (0 : UInt8) ∉ text) (hlen : text.length < 1024) :
    (configuredBoard [("board.bootargs", text)] m).bootargs = some text := by
  have hboard : configuredBoard [("board.bootargs", text)] m =
      putBytes (resetBoard m .myboard) (boardLayout.offset "bootargs") (terminated (cText text)) :=
    rfl
  have htext : cText text = text :=
    List.takeWhile_eq_self_iff.mpr fun c hc => by simpa using ne_of_mem_of_not_mem hc hzero
  apply bootargs_of_field
  rw [hboard, htext]
  exact cString_putBytes _ _ 1024 text hzero hlen

theorem cmdlineBytes_cons (c : UInt8) (text : List UInt8) (h : c ≠ space) :
    cmdlineBytes (c :: text) = 4 * ((text.length + 13) / 4) := by
  simp [cmdlineBytes, eatSpaces, h]

/-- A command line of 1000 characters. -/
theorem long_cmdline_overflows :
    ¬ ∀ pairs m buffer, InBuffer buffer (configuredBoard pairs m) := by
  intro h
  have hmem : ∀ c ∈ (0x61 : UInt8) :: List.replicate 999 0x61, c = 0x61 := fun c hc =>
    (List.mem_cons.mp hc).elim id List.eq_of_mem_replicate
  have hlen : (0x61 :: List.replicate 999 (0x61 : UInt8)).length = 1000 := by
    rw [List.length_cons, List.length_replicate]
  have hargs := configuredBoard_bootargs (0x61 :: List.replicate 999 0x61) (fun _ _ => 0)
    (fun hzero => absurd (hmem 0 hzero) (by decide)) (by omega)
  obtain ⟨out, length, hgen, _⟩ :=
    h [("board.bootargs", 0x61 :: List.replicate 999 0x61)] (fun _ _ => 0) (fun _ => 0)
  rw [generateTag_outside _ _ _ hargs] at hgen
  · cases hgen
  · rw [tagListSize_eq, listBytes, cmdlineBytes_cons _ _ (by decide), List.length_replicate,
      show bufferSize = 1024 from rfl]
    omega

end OmapBootUtils.TagBuffer
