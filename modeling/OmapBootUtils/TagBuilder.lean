import OmapBootUtils.CString
import OmapBootUtils.PackedLayout
import OmapBootUtils.RecordChain

/-!
The tag list builder of tagger: struct board as one block of bytes, the tag
structures of tagger.h, and the setup functions as writers at a cursor into the
1024-byte buffer main passes. A builder that stores outside it has no result.
-/
namespace OmapBootUtils.TagBuilder

open ByteMemory CString PackedLayout RecordChain

def bufferSize : ℕ := 1024

/-! ### struct board -/

abbrev Board := Memory

def boardLayout : Layout :=
  [⟨"mach_id", 4⟩, ⟨"board_rev", 4⟩, ⟨"bootargs", 1024⟩, ⟨"sty_file", 1024⟩,
    ⟨"ram[0].start", 4⟩, ⟨"ram[0].size", 4⟩, ⟨"ram[1].start", 4⟩, ⟨"ram[1].size", 4⟩,
    ⟨"fb.base", 4⟩, ⟨"fb.size", 4⟩, ⟨"serial.high", 4⟩, ⟨"serial.low", 4⟩]

namespace Board

def word (b : Board) (name : String) : UInt32 := readU32 b (boardLayout.offset name)

def machId (b : Board) : UInt32 := b.word "mach_id"
def boardRev (b : Board) : UInt32 := b.word "board_rev"
def fbBase (b : Board) : UInt32 := b.word "fb.base"
def fbSize (b : Board) : UInt32 := b.word "fb.size"
def serialHigh (b : Board) : UInt32 := b.word "serial.high"
def serialLow (b : Board) : UInt32 := b.word "serial.low"

/-- Start and size of the memory banks, in order. -/
def ram (b : Board) : List (UInt32 × UInt32) :=
  [(b.word "ram[0].start", b.word "ram[0].size"), (b.word "ram[1].start", b.word "ram[1].size")]

/-- The string at bootargs; without a NUL the reader runs on through the block. -/
def bootargs (b : Board) : Option (List UInt8) :=
  cString b (boardLayout.offset "bootargs") (boardLayout.size - boardLayout.offset "bootargs")

end Board

/-! ### The tag structures -/

def atagNone : UInt32 := 0x00000000
def atagCore : UInt32 := 0x54410001
def atagMem : UInt32 := 0x54410002
def atagSerial : UInt32 := 0x54410006
def atagRevision : UInt32 := 0x54410007
def atagVideolfb : UInt32 := 0x54410008
def atagCmdline : UInt32 := 0x54410009

def tagHeader : Layout := [⟨"size", 4⟩, ⟨"tag", 4⟩]
def tagCore : Layout := [⟨"flags", 4⟩, ⟨"pagesize", 4⟩, ⟨"rootdev", 4⟩]
def tagMem32 : Layout := [⟨"size", 4⟩, ⟨"start", 4⟩]
def tagSerialnr : Layout := [⟨"low", 4⟩, ⟨"high", 4⟩]
def tagRevision : Layout := [⟨"rev", 4⟩]
def tagVideolfb : Layout :=
  [⟨"lfb_width", 2⟩, ⟨"lfb_height", 2⟩, ⟨"lfb_depth", 2⟩, ⟨"lfb_linelength", 2⟩,
    ⟨"lfb_base", 4⟩, ⟨"lfb_size", 4⟩, ⟨"red_size", 1⟩, ⟨"red_pos", 1⟩, ⟨"green_size", 1⟩,
    ⟨"green_pos", 1⟩, ⟨"blue_size", 1⟩, ⟨"blue_pos", 1⟩, ⟨"rsvd_size", 1⟩, ⟨"rsvd_pos", 1⟩]

/-- tag_size: header and structure in words. -/
def tagSize (type : Layout) : ℕ := (tagHeader.size + type.size) >>> 2

/-- A member of the union that follows the header. -/
def inUnion (type : Layout) (name : String) : ℕ := tagHeader.size + type.offset name

/-- tag_next: the length word just written says where the next tag is. -/
def tagNext (params : Cursor) : Cursor :=
  { params with pos := params.pos + 4 * (readU32 params.mem params.pos).toNat }

/-! ### The setup functions -/

/-- The header, then the members in the order the source stores them. -/
def putTag (tag : UInt32) (size : ℕ) (members : List (ℕ × UInt32)) (params : Cursor) :
    Option Cursor :=
  params.putWords bufferSize
    ((tagHeader.offset "tag", tag) :: (tagHeader.offset "size", UInt32.ofNat size) :: members)

def putWordTag (tag : UInt32) (type : Layout) (members : List (String × UInt32))
    (params : Cursor) : Option Cursor :=
  (putTag tag (tagSize type) (members.map fun m => (inUnion type m.1, m.2)) params).map tagNext

def setupStartTag (params : Cursor) : Option Cursor :=
  putWordTag atagCore tagCore [("flags", 0), ("pagesize", 0), ("rootdev", 0)] params

/-- One pass of the loop over the memory banks. -/
def setupMemoryTag (bank : UInt32 × UInt32) (params : Cursor) : Option Cursor :=
  if bank.2 = 0 then some params
  else putWordTag atagMem tagMem32 [("start", bank.1), ("size", bank.2)] params

def setupMemoryTags (b : Board) (params : Cursor) : Option Cursor :=
  b.ram.foldlM (fun params bank => setupMemoryTag bank params) params

def setupVideolfbTag (b : Board) (params : Cursor) : Option Cursor :=
  if b.fbSize = 0 then some params
  else putWordTag atagVideolfb tagVideolfb [("lfb_base", b.fbBase), ("lfb_size", b.fbSize)] params

def setupSerialTag (b : Board) (params : Cursor) : Option Cursor :=
  if b.serialHigh + b.serialLow = 0 then some params
  else putWordTag atagSerial tagSerialnr [("low", b.serialLow), ("high", b.serialHigh)] params

def setupRevisionTag (b : Board) (params : Cursor) : Option Cursor :=
  if b.boardRev = 0 then some params
  else putWordTag atagRevision tagRevision [("rev", b.boardRev)] params

def space : UInt8 := 0x20

/-- The command line without its leading spaces. -/
def eatSpaces (commandline : List UInt8) : List UInt8 := commandline.dropWhile (· == space)

/-- Words of an ATAG_CMDLINE tag; the rounding term stands for the NUL too. -/
def cmdlineWords (p : List UInt8) : ℕ := (tagHeader.size + p.length + 4) >>> 2

def putCmdlineTag (p : List UInt8) (params : Cursor) : Option Cursor := do
  let params ← putTag atagCmdline (cmdlineWords p) [] params
  let params ← params.put bufferSize tagHeader.size (terminated p)
  return tagNext params

def setupCommandlineTag (b : Board) (params : Cursor) : Option Cursor := do
  let commandline ← b.bootargs
  let p := eatSpaces commandline
  if p = [] then return params
  putCmdlineTag p params

/-- The end tag is stepped over by its header size, not by its length word. -/
def setupEndTag (params : Cursor) : Option Cursor :=
  (putTag atagNone 0 [] params).map fun params =>
    { params with pos := params.pos + tagHeader.size }

/-- The buffer after the call, and the distance the cursor moved. -/
def generateTag (buffer : Memory) (b : Board) : Option (Memory × ℕ) := do
  let param : Cursor := ⟨0, buffer⟩
  let param ← setupStartTag param
  let param ← setupSerialTag b param
  let param ← setupRevisionTag b param
  let param ← setupMemoryTags b param
  let param ← setupCommandlineTag b param
  let param ← setupVideolfbTag b param
  let param ← setupEndTag param
  return (param.mem, param.pos)

end OmapBootUtils.TagBuilder
