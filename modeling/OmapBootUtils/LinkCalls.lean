import OmapBootUtils.ByteMemory
import OmapBootUtils.ScriptedRun

/-!
The calls the download tools make on serial.h, file.h and libusb, with the
results they got. The byte streams of a link are read off this record: what was
handed to s_write, what s_write accepted, and what a bulk OUT transfer moved.
-/
namespace OmapBootUtils.LinkCalls

open ScriptedRun

def serialOk : ℤ := 0
def serialFailed : ℤ := -1
def fileOk : ℤ := 0
def fileError : ℤ := -1

def fileRet (ok : Bool) : ℤ := if ok then fileOk else fileError

/-- f_size returns the size of the file, or fails. -/
def fSizeRet : Option ℕ → ℤ
  | none => fileError
  | some n => n

/-- A bulk OUT transfer of a negative length has no data. -/
inductive LinkCall where
  | sOpen (ret : ℤ)
  | sConfigure (ret : ℤ)
  | sFlush (ret : ℤ)
  | sBreak (ret : ℤ)
  | sRead (size : ℕ) (data : List UInt8)
  | sWrite (data : List UInt8) (ret : ℤ)
  | sClose (ret : ℤ)
  | fSize (ret : ℤ)
  | fOpen (ret : ℤ)
  | fRead (requested : ℕ) (data : List UInt8)
  | fClose (ret : ℤ)
  | claimInterface (ret : ℤ)
  | bulkIn (length : ℕ) (ret : ℤ) (actual : ℤ)
  | bulkOut (data : List UInt8) (ret : ℤ) (actual : ℤ)
  | bulkOutNegative (ret : ℤ) (actual : ℤ)
  | releaseInterface (ret : ℤ)
  | usbClose
  deriving DecidableEq, Repr

/-- The calls that do not move data but control a port, a file or a device. -/
def LinkCall.Controls : LinkCall → Prop
  | .sRead _ _ => False
  | .sWrite _ _ => False
  | .fRead _ _ => False
  | .bulkIn _ _ _ => False
  | .bulkOut _ _ _ => False
  | .bulkOutNegative _ _ => False
  | _ => True

abbrev Link := Run LinkCall

/-- The outcome of a read or write: an error, or a number of bytes the call may
move. The caller's request and the data at hand bound what is moved. -/
abbrev Outcome := Option ℕ

/-- The result of reading or writing a block under an outcome. -/
def moved (block : List UInt8) : Outcome → ℤ
  | none => -1
  | some n => (min n block.length : ℕ)

theorem moved_le (block : List UInt8) (o : Outcome) : moved block o ≤ block.length := by
  cases o with
  | none => simp only [moved]; omega
  | some n => simp only [moved]; omega

/-- What is moved of a block is the whole block, unless the result says otherwise;
an empty block is moved even by a call that fails. -/
theorem take_moved_length_eq_iff (block : List UInt8) (o : Outcome) :
    (block.take (moved block o).toNat).length = block.length ↔
      (block ≠ [] → moved block o = block.length) := by
  have hle := moved_le block o
  rw [List.length_take]
  cases block with
  | nil => simp
  | cons b block =>
    simp only [List.length_cons, ne_eq, reduceCtorEq, not_false_eq_true, true_implies] at hle ⊢
    omega

/-- A call that moves a 32-bit word moves all of it. -/
def wordTaken : Outcome → Bool
  | none => false
  | some n => decide (4 ≤ n)

theorem moved_word_eq_iff (block : List UInt8) (hblock : block.length = 4) (o : Outcome) :
    moved block o = 4 ↔ wordTaken o = true := by
  cases o with
  | none => simp [moved, wordTaken]
  | some n =>
    simp only [moved, wordTaken, hblock, decide_eq_true_eq]
    omega

def LinkCall.given : LinkCall → List UInt8
  | .sWrite data _ => data
  | _ => []

def LinkCall.accepted : LinkCall → List UInt8
  | .sWrite data ret => data.take ret.toNat
  | _ => []

def LinkCall.bulkMoved : LinkCall → List UInt8
  | .bulkOut data _ actual => data.take actual.toNat
  | _ => []

/-- The bytes handed to s_write, in order. -/
def given (log : List LinkCall) : List UInt8 := log.flatMap LinkCall.given

/-- The bytes s_write accepted, in order. -/
def accepted (log : List LinkCall) : List UInt8 := log.flatMap LinkCall.accepted

/-- The bytes moved by bulk OUT transfers, in order. -/
def bulkMoved (log : List LinkCall) : List UInt8 := log.flatMap LinkCall.bulkMoved

@[simp] theorem given_append (l m : List LinkCall) : given (l ++ m) = given l ++ given m :=
  List.flatMap_append

@[simp] theorem accepted_append (l m : List LinkCall) :
    accepted (l ++ m) = accepted l ++ accepted m := List.flatMap_append

@[simp] theorem bulkMoved_append (l m : List LinkCall) :
    bulkMoved (l ++ m) = bulkMoved l ++ bulkMoved m := List.flatMap_append

theorem accepted_full (block : List UInt8) (ret : ℤ) (h : ret = block.length) :
    accepted [.sWrite block ret] = block := by
  simp [accepted, LinkCall.accepted, h]

theorem bulkMoved_full (block : List UInt8) (ret actual : ℤ) (h : actual = block.length) :
    bulkMoved [.bulkOut block ret actual] = block := by
  simp [bulkMoved, LinkCall.bulkMoved, h]

end OmapBootUtils.LinkCalls
