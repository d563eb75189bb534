import OmapBootUtils.TagBuilder
import Mathlib.Data.List.TakeWhile

/-!
Reading a tag list back. A tag is what its words say; a reader walks the list by
its length words until a tag of size zero. Every setup function appends the tags
the board calls for, so the walk over a generated list visits exactly these.
-/
namespace OmapBootUtils.TagWalk

open ByteMemory CString PackedLayout RecordChain TagBuilder

inductive Tag where
  | core (flags pagesize rootdev : UInt32)
  | serial (low high : UInt32)
  | revision (rev : UInt32)
  | mem (size start : UInt32)
  | cmdline (text : List UInt8)
  | videolfb (base size : UInt32)
  deriving DecidableEq, Repr

namespace Tag

def id : Tag → UInt32
  | core .. => atagCore
  | serial .. => atagSerial
  | revision .. => atagRevision
  | mem .. => atagMem
  | cmdline .. => atagCmdline
  | videolfb .. => atagVideolfb

def words : Tag → ℕ
  | core .. => tagSize tagCore
  | serial .. => tagSize tagSerialnr
  | revision .. => tagSize tagRevision
  | mem .. => tagSize tagMem32
  | cmdline text => cmdlineWords text
  | videolfb .. => tagSize tagVideolfb

/-- The words a tag carries, by their offsets in it. -/
def members : Tag → List (ℕ × UInt32)
  | core flags pagesize rootdev =>
      [(inUnion tagCore "flags", flags), (inUnion tagCore "pagesize", pagesize),
        (inUnion tagCore "rootdev", rootdev)]
  | serial low high =>
      [(inUnion tagSerialnr "low", low), (inUnion tagSerialnr "high", high)]
  | revision rev => [(inUnion tagRevision "rev", rev)]
  | mem size start => [(inUnion tagMem32 "size", size), (inUnion tagMem32 "start", start)]
  | cmdline _ => []
  | videolfb base size =>
      [(inUnion tagVideolfb "lfb_base", base), (inUnion tagVideolfb "lfb_size", size)]

/-- The bytes at `a` are the tag. The string of an ATAG_CMDLINE ends in it. -/
structure Holds (s : Memory) (a : ℕ) (t : Tag) : Prop where
  size : (readU32 s a).toNat = t.words
  tag : readU32 s (a + 4) = t.id
  members : ∀ m ∈ t.members, readU32 s (a + m.1) = m.2
  text : ∀ text, t = .cmdline text → cString s (a + 8) (4 * t.words - 8) = some text

end Tag

theorem cmdlineWords_eq (p : List UInt8) : cmdlineWords p = (p.length + 12) / 4 := by
  unfold cmdlineWords
  rw [Nat.shiftRight_eq_div_pow, show tagHeader.size = 8 from rfl]
  congr 1
  omega

theorem two_le_words (t : Tag) : 2 ≤ t.words := by
  cases t with
  | cmdline text =>
    rw [Tag.words, cmdlineWords_eq]
    omega
  | _ => simp only [Tag.words]; decide

theorem member_inside (t : Tag) : ∀ m ∈ t.members, m.1 + 4 ≤ 4 * t.words := by
  intro m hm
  cases t with
  | cmdline text => simp [Tag.members] at hm
  | _ =>
    simp only [Tag.members, Tag.words, List.mem_cons, List.not_mem_nil, or_false] at hm ⊢
    revert m
    simp only [forall_eq_or_imp, forall_eq]
    decide

def tagFormat : Format Tag where
  width t := 4 * t.words
  Holds := Tag.Holds
  holds_congr s t a r h hst := by
    have hwords := two_le_words r
    have hword : ∀ off, off + 4 ≤ 4 * r.words → readU32 t (a + off) = readU32 s (a + off) := by
      intro off hoff
      exact (readU32_congr s t (a + off) fun j hj hlt => hst j (by omega) (by omega)).symm
    refine ⟨?_, ?_, ?_, ?_⟩
    · rw [← h.size, ← Nat.add_zero a, hword 0 (by omega)]
    · rw [← h.tag, hword 4 (by omega)]
    · intro m hm
      rw [← h.members m hm, hword m.1 (member_inside r m hm)]
    · intro text htext
      exact cString_shift s t (a + 8) (a + 8) _ text (h.text text htext)
        fun i hi => hst (a + 8 + i) (by omega) (by omega)

/-- Read the tag at `a`: its kind, its members, and where its length word points. -/
def readTag (s : Memory) (a : ℕ) : Option (Reading Tag) :=
  let size := (readU32 s a).toNat
  let tag := readU32 s (a + 4)
  let member := fun type name => readU32 s (a + inUnion type name)
  let next := a + 4 * size
  if size = 0 then
    if tag = atagNone then some (.stop (a + 8)) else none
  else if tag = atagCore then
    some (.record (.core (member tagCore "flags") (member tagCore "pagesize")
      (member tagCore "rootdev")) next)
  else if tag = atagSerial then
    some (.record (.serial (member tagSerialnr "low") (member tagSerialnr "high")) next)
  else if tag = atagRevision then
    some (.record (.revision (member tagRevision "rev")) next)
  else if tag = atagMem then
    some (.record (.mem (member tagMem32 "size") (member tagMem32 "start")) next)
  else if tag = atagCmdline then
    (cString s (a + 8) (4 * size - 8)).map fun text => .record (.cmdline text) next
  else if tag = atagVideolfb then
    some (.record (.videolfb (member tagVideolfb "lfb_base") (member tagVideolfb "lfb_size")) next)
  else none

/-- Walk the list from offset 0, for at most `fuel` tags. -/
def readTags (fuel : ℕ) (s : Memory) : Option (List Tag × ℕ) := walk (readTag s) fuel 0

theorem readTag_holds (s : Memory) (a : ℕ) (t : Tag) (h : t.Holds s a) :
    readTag s a = some (.record t (a + tagFormat.width t)) := by
  have hpos : t.words ≠ 0 := by
    have := two_le_words t
    omega
  have hmembers := h.members
  have htext := h.text
  unfold readTag
  simp only [h.size, h.tag, hpos, if_false]
  cases t with
  | cmdline text =>
    rw [htext text rfl]
    rfl
  | _ =>
    simp only [Tag.members, List.mem_cons, List.not_mem_nil, or_false, forall_eq_or_imp,
      forall_eq] at hmembers
    simp only [hmembers, Tag.id]
    rfl

/-! ### One tag -/

theorem tagHeader_tag : tagHeader.offset "tag" = 4 := by decide

theorem tagHeader_size : tagHeader.offset "size" = 0 := by decide

section Put
variable (tag : UInt32) (size : ℕ) (members : List (ℕ × UInt32))

/-- The words putTag stores. -/
def storedWords : List (ℕ × UInt32) := (4, tag) :: (0, UInt32.ofNat size) :: members

theorem putTag_eq (c : Cursor) :
    putTag tag size members c = c.putWords bufferSize (storedWords tag size members) := by
  rw [putTag, tagHeader_tag, tagHeader_size]
  rfl

theorem putTag_inside (c : Cursor) (len : ℕ) (hapart : Apart (storedWords tag size members))
    (hlen : ∀ w ∈ storedWords tag size members, w.1 + 4 ≤ len)
    (hfits : c.pos + len ≤ bufferSize) :
    ∃ mem, putTag tag size members c = some { c with mem := mem } ∧
      readU32 mem c.pos = UInt32.ofNat size ∧ readU32 mem (c.pos + 4) = tag ∧
      (∀ m ∈ members, readU32 mem (c.pos + m.1) = m.2) ∧
      ∀ j, j < c.pos ∨ c.pos + len ≤ j → mem j = c.mem j := by
  obtain ⟨mem, hput, hread, _, hframe⟩ := Cursor.putWords_inside bufferSize c
    (storedWords tag size members) len hapart hlen hfits
  refine ⟨mem, by rw [putTag_eq, hput], ?_, ?_, ?_, hframe⟩
  · exact hread (0, UInt32.ofNat size) (by simp [storedWords])
  · exact hread (4, tag) (by simp [storedWords])
  · intro m hm
    exact hread m (by simp [storedWords, hm])

/-- A tag that was stored at all has its length word in place. -/
theorem putTag_size (c c' : Cursor) (hapart : Apart (storedWords tag size members))
    (h : putTag tag size members c = some c') :
    c'.pos = c.pos ∧ readU32 c'.mem c'.pos = UInt32.ofNat size := by
  have hin : ∀ w ∈ storedWords tag size members, c.pos + w.1 + 4 ≤ bufferSize := by
    intro w hw
    by_contra hout
    rw [putTag_eq, Cursor.putWords_outside bufferSize c _ ⟨w, hw, by omega⟩] at h
    cases h
  have hpos := hin (4, tag) (by simp [storedWords])
  obtain ⟨mem, hput, hsize, _⟩ := putTag_inside tag size members c (bufferSize - c.pos) hapart
    (fun w hw => by have := hin w hw; omega) (by omega)
  rw [hput] at h
  cases h
  exact ⟨rfl, hsize⟩

end Put

theorem toNat_ofNat_words (n : ℕ) (h : n < 2 ^ 32) : (UInt32.ofNat n).toNat = n := by
  rw [UInt32.toNat_ofNat']
  exact Nat.mod_eq_of_lt h

/-- A setup function that stores the words of `t` appends `t`. -/
theorem putWordTag_builds (t : Tag) (type : Layout) (members : List (String × UInt32))
    (htext : ∀ text, t ≠ .cmdline text) (hwords : t.words = tagSize type)
    (hsmall : tagSize type < 2 ^ 32)
    (hmembers : ∀ m ∈ t.members, m ∈ members.map fun m => (inUnion type m.1, m.2))
    (hapart : Apart (storedWords t.id (tagSize type)
      (members.map fun m => (inUnion type m.1, m.2))))
    (hlen : ∀ w ∈ storedWords t.id (tagSize type)
      (members.map fun m => (inUnion type m.1, m.2)), w.1 + 4 ≤ 4 * tagSize type) :
    Builds tagFormat bufferSize (putWordTag t.id type members) [t] := by
  have hwidth : tagFormat.span [t] = 4 * tagSize type := by
    simp [tagFormat, hwords]
  constructor
  · intro c hc
    rw [hwidth] at hc
    obtain ⟨mem, hput, hsize, htag, hread, hframe⟩ :=
      putTag_inside t.id (tagSize type) _ c (4 * tagSize type) hapart hlen hc
    refine ⟨tagNext { c with mem := mem }, by rw [putWordTag, hput]; rfl, ?_, ⟨?_, trivial⟩, ?_⟩
    · rw [hwidth, tagNext]
      simp only [hsize, toNat_ofNat_words _ hsmall]
    · refine ⟨?_, htag, fun m hm => hread m (hmembers m hm), ?_⟩
      · rw [hwords]
        exact (congrArg UInt32.toNat hsize).trans (toNat_ofNat_words _ hsmall)
      · intro text heq
        exact absurd heq (htext text)
    · rw [hwidth]
      exact hframe
  · intro c hc c' h
    rw [hwidth] at hc
    rw [putWordTag, Option.map_eq_some_iff] at h
    obtain ⟨c₁, hput, rfl⟩ := h
    obtain ⟨hpos, hsize⟩ := putTag_size t.id (tagSize type) _ c c₁ hapart hput
    have hnext : (tagNext c₁).pos = c.pos + 4 * tagSize type := by
      simp only [tagNext, hsize, toNat_ofNat_words _ hsmall]
      rw [hpos]
    rwa [hnext]

theorem putCmdlineTag_builds (p : List UInt8) (hzero : (0 : UInt8) ∉ p)
    (hlen : p.length < 2 ^ 32 - 12) :
    Builds tagFormat bufferSize (putCmdlineTag p) [.cmdline p] := by
  have hwords := cmdlineWords_eq p
  have hsmall : cmdlineWords p < 2 ^ 32 := by omega
  have hheader : tagHeader.size = 8 := rfl
  have hwidth : tagFormat.span [.cmdline p] = 4 * cmdlineWords p := by
    simp [tagFormat, Tag.words]
  have hterm : (terminated p).length = p.length + 1 := by simp [terminated]
  have hapart : Apart (storedWords atagCmdline (cmdlineWords p) []) := by
    simp [storedWords, Apart]
  constructor
  · intro c hc
    rw [hwidth] at hc
    obtain ⟨mem, hput, hsize, htag, _, hframe⟩ := putTag_inside atagCmdline (cmdlineWords p) [] c 8
      hapart (by simp [storedWords]) (by omega)
    have hcopy := Cursor.put_inside bufferSize { c with mem := mem } 8 (terminated p)
      (by simp only; omega)
    have hsize' := readU32_congr (putBytes mem (c.pos + 8) (terminated p)) mem c.pos
      fun j _ hlt => putBytes_outside mem (c.pos + 8) (terminated p) j (by omega)
    have htag' := readU32_congr (putBytes mem (c.pos + 8) (terminated p)) mem (c.pos + 4)
      fun j _ hlt => putBytes_outside mem (c.pos + 8) (terminated p) j (by omega)
    refine ⟨tagNext ⟨c.pos, putBytes mem (c.pos + 8) (terminated p)⟩, ?_, ?_, ⟨?_, trivial⟩, ?_⟩
    · rw [putCmdlineTag, hput, hheader]
      simp only [Option.bind_eq_bind, Option.bind_some, hcopy]
      rfl
    · rw [hwidth, tagNext]
      simp only [hsize', hsize, toNat_ofNat_words _ hsmall]
    · refine ⟨?_, htag'.trans htag, by simp [Tag.members], ?_⟩
      · exact (congrArg UInt32.toNat (hsize'.trans hsize)).trans (toNat_ofNat_words _ hsmall)
      · intro text heq
        cases heq
        exact cString_putBytes mem (c.pos + 8) _ p hzero (by simp only [Tag.words]; omega)
    · rw [hwidth]
      intro j hj
      rw [← hframe j (by omega)]
      exact putBytes_outside mem (c.pos + 8) (terminated p) j (by omega)
  · intro c hc c' h
    rw [hwidth] at hc
    rw [putCmdlineTag, Option.bind_eq_bind, Option.bind_eq_some_iff] at h
    obtain ⟨c₁, hput, h⟩ := h
    obtain ⟨hpos, hsize⟩ := putTag_size atagCmdline (cmdlineWords p) [] c c₁ hapart hput
    obtain ⟨c₂, hcopy, h⟩ := Option.bind_eq_some_iff.mp h
    cases h
    obtain ⟨_, rfl⟩ := (Cursor.put_eq_some_iff bufferSize c₁ c₂ tagHeader.size _).mp hcopy
    have hsize' := readU32_congr (putBytes c₁.mem (c₁.pos + 8) (terminated p)) c₁.mem c₁.pos
      fun j _ hlt => putBytes_outside c₁.mem (c₁.pos + 8) (terminated p) j (by omega)
    simp only [tagNext, hheader]
    rw [hsize', hsize, toNat_ofNat_words _ hsmall, hpos]
    exact hc

/-! ### The setup functions -/

variable (b : Board)

/-- The tags of the memory banks that exist, in bank order. -/
def memTags (banks : List (UInt32 × UInt32)) : List Tag :=
  banks.flatMap fun bank => if bank.2 = 0 then [] else [.mem bank.2 bank.1]

def revisionTags : List Tag := if b.boardRev = 0 then [] else [.revision b.boardRev]

def cmdlineTags (commandline : List UInt8) : List Tag :=
  if commandline.all (· == space) then [] else [.cmdline (eatSpaces commandline)]

def videolfbTags : List Tag := if b.fbSize = 0 then [] else [.videolfb b.fbBase b.fbSize]

/-- The serial tag by the test of setup_serial_tag, on the 32-bit sum. -/
def sumSerialTags : List Tag :=
  if b.serialHigh + b.serialLow = 0 then [] else [.serial b.serialLow b.serialHigh]

theorem setupStartTag_builds : Builds tagFormat bufferSize setupStartTag [.core 0 0 0] :=
  putWordTag_builds (.core 0 0 0) tagCore _ (by simp) rfl (by decide)
    (by simp [Tag.members]) (by decide) (by decide)

theorem setupSerialTag_builds :
    Builds tagFormat bufferSize (setupSerialTag b) (sumSerialTags b) :=
  Builds.unless tagFormat bufferSize _ (putWordTag_builds (.serial b.serialLow b.serialHigh)
    tagSerialnr _ (by simp) rfl (by decide) (by simp [Tag.members])
    (by simp only [Apart, storedWords, List.map]; simp; decide) (by simp [storedWords]; decide))

theorem setupRevisionTag_builds :
    Builds tagFormat bufferSize (setupRevisionTag b) (revisionTags b) :=
  Builds.unless tagFormat bufferSize _ (putWordTag_builds (.revision b.boardRev)
    tagRevision _ (by simp) rfl (by decide) (by simp [Tag.members])
    (by simp [storedWords, Apart]; decide) (by simp [storedWords]; decide))

theorem setupVideolfbTag_builds :
    Builds tagFormat bufferSize (setupVideolfbTag b) (videolfbTags b) :=
  Builds.unless tagFormat bufferSize _ (putWordTag_builds (.videolfb b.fbBase b.fbSize)
    tagVideolfb _ (by simp) rfl (by decide) (by simp [Tag.members])
    (by simp [storedWords, Apart]; decide) (by simp [storedWords]; decide))

theorem setupMemoryTag_builds (bank : UInt32 × UInt32) :
    Builds tagFormat bufferSize (setupMemoryTag bank)
      (if bank.2 = 0 then [] else [.mem bank.2 bank.1]) :=
  Builds.unless tagFormat bufferSize _ (putWordTag_builds (.mem bank.2 bank.1)
    tagMem32 _ (by simp) rfl (by decide) (by simp [Tag.members])
    (by simp [storedWords, Apart]; decide) (by simp [storedWords]; decide))

theorem setupMemoryTags_builds (banks : List (UInt32 × UInt32)) :
    Builds tagFormat bufferSize
      (fun c => banks.foldlM (fun params bank => setupMemoryTag bank params) c)
      (memTags banks) := by
  induction banks with
  | nil => exact Builds.nothing tagFormat bufferSize
  | cons bank banks ih =>
    rw [memTags, List.flatMap_cons]
    exact Builds.append tagFormat bufferSize (setupMemoryTag_builds bank) ih

theorem eatSpaces_eq_nil_iff (commandline : List UInt8) :
    eatSpaces commandline = [] ↔ commandline.all (· == space) = true := by
  rw [eatSpaces, List.dropWhile_eq_nil_iff, List.all_eq_true]

theorem setupCommandlineTag_builds (commandline : List UInt8)
    (h : b.bootargs = some commandline) :
    Builds tagFormat bufferSize (setupCommandlineTag b) (cmdlineTags commandline) := by
  obtain ⟨hlen, hzero, _⟩ := cString_spec _ _ _ _ h
  have hsuffix : eatSpaces commandline <:+ commandline := List.dropWhile_suffix _
  have hp : (0 : UInt8) ∉ eatSpaces commandline := fun hmem => hzero (hsuffix.mem hmem)
  have hshort : (eatSpaces commandline).length < 2 ^ 32 - 12 := by
    have hle := hsuffix.length_le
    have hsize : boardLayout.size - boardLayout.offset "bootargs" = 2080 := by decide
    omega
  have hbuild := Builds.unless tagFormat bufferSize (eatSpaces commandline = [])
    (putCmdlineTag_builds (eatSpaces commandline) hp hshort)
  have heq : setupCommandlineTag b = fun c => if eatSpaces commandline = [] then some c
      else putCmdlineTag (eatSpaces commandline) c := by
    funext c
    rw [setupCommandlineTag, h]
    rfl
  rw [heq, cmdlineTags]
  simpa only [eatSpaces_eq_nil_iff] using hbuild

/-- The end tag closes the list, if its eight bytes are still in the buffer. -/
theorem setupEndTag_inside (c : Cursor) (h : c.pos + 8 ≤ bufferSize) :
    ∃ mem, setupEndTag c = some ⟨c.pos + 8, mem⟩ ∧ readU32 mem c.pos = 0 ∧
      readU32 mem (c.pos + 4) = atagNone ∧
      ∀ j, j < c.pos ∨ c.pos + 8 ≤ j → mem j = c.mem j := by
  obtain ⟨mem, hput, hsize, htag, _, hframe⟩ := putTag_inside atagNone 0 [] c 8
    (by simp [storedWords, Apart]) (by simp [storedWords]) h
  exact ⟨mem, by rw [setupEndTag, hput]; rfl, hsize, htag, hframe⟩

theorem setupEndTag_outside (c : Cursor) (h : bufferSize < c.pos + 8) : setupEndTag c = none := by
  rw [setupEndTag, putTag_eq, Cursor.putWords_outside bufferSize c _
    ⟨(4, atagNone), by simp [storedWords], by simp only; omega⟩]
  rfl

/-! ### The generated list -/

/-- The tags of a board, with its serial tag given. -/
def tagsWith (serial : List Tag) (commandline : List UInt8) : List Tag :=
  [.core 0 0 0] ++ (serial ++ (revisionTags b ++ (memTags b.ram ++
    (cmdlineTags commandline ++ videolfbTags b))))

/-- The bytes of a list of tags and its ATAG_NONE. -/
def tagListSize (tags : List Tag) : ℕ := tagFormat.span tags + tagHeader.size

variable (buffer : Memory)

theorem generateTag_eq : generateTag buffer b =
    ((setupStartTag ⟨0, buffer⟩).bind fun c => (setupSerialTag b c).bind fun c =>
      (setupRevisionTag b c).bind fun c => (setupMemoryTags b c).bind fun c =>
        (setupCommandlineTag b c).bind (setupVideolfbTag b)).bind fun c =>
          (setupEndTag c).map fun c => (c.mem, c.pos) := by
  simp only [generateTag, Option.bind_eq_bind, Option.bind_assoc, Option.pure_def,
    Option.map_eq_bind]
  rfl

theorem builders_build (commandline : List UInt8) (h : b.bootargs = some commandline) :
    Builds tagFormat bufferSize (fun c => (setupStartTag c).bind fun c =>
      (setupSerialTag b c).bind fun c => (setupRevisionTag b c).bind fun c =>
        (setupMemoryTags b c).bind fun c => (setupCommandlineTag b c).bind (setupVideolfbTag b))
      (tagsWith b (sumSerialTags b) commandline) :=
  Builds.append _ _ setupStartTag_builds <| Builds.append _ _ (setupSerialTag_builds b) <|
    Builds.append _ _ (setupRevisionTag_builds b) <|
      Builds.append _ _ (setupMemoryTags_builds b.ram) <|
        Builds.append _ _ (setupCommandlineTag_builds b commandline h) (setupVideolfbTag_builds b)

/-- A list that fits is laid out from offset 0 and closed. -/
theorem generateTag_inside (commandline : List UInt8) (h : b.bootargs = some commandline)
    (hfits : tagListSize (tagsWith b (sumSerialTags b) commandline) ≤ bufferSize) :
    ∃ mem, generateTag buffer b =
        some (mem, tagListSize (tagsWith b (sumSerialTags b) commandline)) ∧
      tagFormat.Laid mem 0 (tagsWith b (sumSerialTags b) commandline) ∧
      readTag mem (tagFormat.span (tagsWith b (sumSerialTags b) commandline)) =
        some (.stop (tagListSize (tagsWith b (sumSerialTags b) commandline))) := by
  have hheader : tagHeader.size = 8 := rfl
  rw [tagListSize, hheader] at hfits ⊢
  obtain ⟨c, hc, happ⟩ := (builders_build b commandline h).fits ⟨0, buffer⟩ (by simp only; omega)
  have hpos := happ.pos
  rw [Nat.zero_add] at hpos
  obtain ⟨mem, hend, hsize, htag, hframe⟩ := setupEndTag_inside c (by omega)
  rw [hpos] at hend hsize htag hframe
  refine ⟨mem, ?_, ?_, ?_⟩
  · rw [generateTag_eq, hc, Option.bind_some, hend]
    rfl
  · exact tagFormat.laid_congr c.mem mem 0 _ happ.laid fun j _ hlt =>
      (hframe j (Or.inl (by omega))).symm
  · simp [readTag, hsize, htag]

/-- A list that does not fit is not built. -/
theorem generateTag_outside (commandline : List UInt8) (h : b.bootargs = some commandline)
    (hover : bufferSize < tagListSize (tagsWith b (sumSerialTags b) commandline)) :
    generateTag buffer b = none := by
  have hheader : tagHeader.size = 8 := rfl
  rw [tagListSize, hheader] at hover
  rw [generateTag_eq, Option.bind_eq_none_iff]
  intro c hc
  have hout : setupEndTag c = none := by
    apply setupEndTag_outside
    by_cases hfits : tagFormat.span (tagsWith b (sumSerialTags b) commandline) ≤ bufferSize
    · obtain ⟨c', hc', happ⟩ := (builders_build b commandline h).fits ⟨0, buffer⟩
        (by simp only; omega)
      obtain rfl : c' = c := Option.some.inj (hc'.symm.trans hc)
      have hpos := happ.pos
      simp only at hpos
      omega
    · have := (builders_build b commandline h).overflows ⟨0, buffer⟩ (by simp only; omega) c hc
      omega
  rw [hout]
  rfl

/-- A command line without a NUL leaves the board. -/
theorem generateTag_unterminated (h : b.bootargs = none) : generateTag buffer b = none := by
  have hnone : ∀ c, setupCommandlineTag b c = none := fun c => by
    rw [setupCommandlineTag, h]
    rfl
  simp [generateTag_eq, hnone]

/-- The length of any list that is built. -/
theorem generateTag_length (mem : Memory) (length : ℕ)
    (h : generateTag buffer b = some (mem, length)) :
    4 ∣ length ∧ tagHeader.size ≤ length ∧ length ≤ bufferSize := by
  cases hargs : b.bootargs with
  | none =>
    rw [generateTag_unterminated b buffer hargs] at h
    cases h
  | some commandline =>
    by_cases hfits : tagListSize (tagsWith b (sumSerialTags b) commandline) ≤ bufferSize
    · obtain ⟨mem', hgen, _⟩ := generateTag_inside b buffer commandline hargs hfits
      rw [h, Option.some.injEq, Prod.mk.injEq] at hgen
      rw [hgen.2]
      refine ⟨?_, by rw [tagListSize]; omega, hfits⟩
      exact Nat.dvd_add (tagFormat.dvd_span 4 _ fun t => Nat.dvd_mul_right 4 t.words) (by decide)
    · rw [generateTag_outside b buffer commandline hargs (by omega)] at h
      cases h

/-- The tags a board calls for: a serial number is there unless both words are 0. -/
def boardTags (commandline : List UInt8) : List Tag :=
  tagsWith b (if b.serialHigh = 0 ∧ b.serialLow = 0 then []
    else [.serial b.serialLow b.serialHigh]) commandline

theorem boardTags_eq (commandline : List UInt8)
    (hserial : (b.serialHigh = 0 ∧ b.serialLow = 0) ∨ b.serialHigh + b.serialLow ≠ 0) :
    boardTags b commandline = tagsWith b (sumSerialTags b) commandline := by
  unfold boardTags sumSerialTags
  rcases hserial with ⟨hhigh, hlow⟩ | hsum
  · simp [hhigh, hlow]
  · have hne : ¬ (b.serialHigh = 0 ∧ b.serialLow = 0) := by
      rintro ⟨hhigh, hlow⟩
      exact hsum (by rw [hhigh, hlow]; rfl)
    rw [if_neg hne, if_neg hsum]

theorem bootargs_of_field (commandline : List UInt8)
    (h : cString b (boardLayout.offset "bootargs") 1024 = some commandline) :
    b.bootargs = some commandline :=
  cString_mono b _ 1024 _ commandline h (by decide)

/-- Walking a list that fits visits the tags that were laid. -/
theorem readTags_inside (commandline : List UInt8) (h : b.bootargs = some commandline)
    (hfits : tagListSize (tagsWith b (sumSerialTags b) commandline) ≤ bufferSize) :
    ∃ out, generateTag buffer b =
        some (out, tagListSize (tagsWith b (sumSerialTags b) commandline)) ∧
      readTags (tagListSize (tagsWith b (sumSerialTags b) commandline)) out =
        some (tagsWith b (sumSerialTags b) commandline,
          tagListSize (tagsWith b (sumSerialTags b) commandline)) := by
  obtain ⟨mem, hgen, hlaid, hstop⟩ := generateTag_inside b buffer commandline h hfits
  have hwidth : ∀ t, 0 < tagFormat.width t := by
    intro t
    have := two_le_words t
    simp only [tagFormat]
    omega
  have hcount := tagFormat.length_le_span (tagsWith b (sumSerialTags b) commandline) hwidth
  refine ⟨mem, hgen, ?_⟩
  apply walk_laid tagFormat mem (readTag mem) (readTag_holds mem) _ 0 _ hlaid
  · rwa [Nat.zero_add]
  · rw [tagListSize, show tagHeader.size = 8 from rfl]
    omega

/-- Walking a generated list visits the tags of its board, in order and with its
values, and ends at the returned length. -/
theorem tag_list_round_trip (commandline : List UInt8)
    (hargs : cString b (boardLayout.offset "bootargs") 1024 = some commandline)
    (hserial : (b.serialHigh = 0 ∧ b.serialLow = 0) ∨ b.serialHigh + b.serialLow ≠ 0)
    (hfits : tagListSize (boardTags b commandline) ≤ bufferSize) :
    ∃ out length, generateTag buffer b = some (out, length) ∧
      readTags length out = some (boardTags b commandline, length) ∧ 4 ∣ length := by
  rw [boardTags_eq b commandline hserial] at hfits ⊢
  obtain ⟨mem, hgen, hread⟩ :=
    readTags_inside b buffer commandline (bootargs_of_field b commandline hargs) hfits
  exact ⟨mem, _, hgen, hread, (generateTag_length b buffer mem _ hgen).1⟩

/-- A revision, 256 MiB in the second bank, and a command line after a space. -/
def consoleBoard : Board :=
  putU32 (putBytes (putU32 (fun _ => 0) 4 0x20) 8 [0x20, 0x72, 0x6F]) 2068 0x10000000

theorem tag_list_round_trip_console :
    ∃ out length, generateTag (fun _ => 0xAA) consoleBoard = some (out, length) ∧
      readTags length out = some (boardTags consoleBoard [0x20, 0x72, 0x6F], length) ∧
        4 ∣ length :=
  tag_list_round_trip consoleBoard (fun _ => 0xAA) [0x20, 0x72, 0x6F] (by decide) (by decide)
    (by decide)

end OmapBootUtils.TagWalk
