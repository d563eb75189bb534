import OmapBootUtils.CString

/-!
The configuration handler of compare.h and the traversal of lcfg. A table maps
keys to typed variables in the objects of a program; a value is scanned by the
rules of sscanf with %x. The traversal hands the pairs of a file to the handler
in order and stops at the first that is not accepted.
-/
namespace OmapBootUtils.ConfigHandler

open ByteMemory CString

/-! ### sscanf -/

inductive ScanResult where
  | eof
  | failure
  | number (val : UInt32)
  deriving DecidableEq, Repr

def isSpace (c : UInt8) : Bool := c == 0x20 || (0x09 ≤ c && c ≤ 0x0D)

def hexDigit (c : UInt8) : Option ℕ :=
  if 0x30 ≤ c ∧ c ≤ 0x39 then some (c.toNat - 0x30)
  else if 0x41 ≤ c ∧ c ≤ 0x46 then some (c.toNat - 0x41 + 10)
  else if 0x61 ≤ c ∧ c ≤ 0x66 then some (c.toNat - 0x61 + 10)
  else none

/-- The digits at the start of a text, and the number they denote so far. -/
def hexDigits (acc : ℕ) : List UInt8 → ℕ
  | [] => acc
  | c :: text => match hexDigit c with
    | some d => hexDigits (16 * acc + d) text
    | none => acc

/-- The number after an optional sign: a prefix 0x is skipped. -/
def scanMagnitude : List UInt8 → Option ℕ
  | 0x30 :: 0x78 :: text => some (hexDigits 0 text)
  | 0x30 :: 0x58 :: text => some (hexDigits 0 text)
  | [] => none
  | c :: text => (hexDigit c).map fun d => hexDigits d text

/-- The largest unsigned long; strtoul returns it for any number beyond, of either sign. -/
def ulongMax : ℕ := 2 ^ 64 - 1

/-- The unsigned int that %x cuts from the unsigned long of strtoul. -/
def scanWord (negative : Bool) (n : ℕ) : UInt32 :=
  if n > ulongMax then UInt32.ofNat ulongMax
  else if negative then 0 - UInt32.ofNat n
  else UInt32.ofNat n

/-- sscanf(str, "%x", &val) of glibc with 64-bit longs, on the text before the NUL. -/
def sscanfHex (str : List UInt8) : ScanResult :=
  match str.dropWhile isSpace with
  | [] => .eof
  | 0x2D :: text => match scanMagnitude text with
    | some n => .number (scanWord true n)
    | none => .failure
  | 0x2B :: text => match scanMagnitude text with
    | some n => .number (scanWord false n)
    | none => .failure
  | text => match scanMagnitude text with
    | some n => .number (scanWord false n)
    | none => .failure

/-! ### compare_eventhandler -/

def typeU8 : ℕ := 1
def typeU16 : ℕ := 2
def typeU32 : ℕ := 3
def typeS : ℕ := 4

/-- struct compare_map; the variable is an offset in one of the objects. -/
structure CompareMap (ω : Type) where
  name : String
  object : ω
  offset : ℕ
  type : ℕ
  deriving DecidableEq, Repr

/-- The memory from the first byte of each object on. -/
abbrev Objects (ω : Type) := ω → Memory

inductive LcfgStatus where
  | ok
  | error
  deriving DecidableEq, Repr

variable {ω : Type} [DecidableEq ω]

def CompareMap.store (c : CompareMap ω) (objs : Objects ω) (bytes : List UInt8) : Objects ω :=
  fun o => if o = c.object then putBytes (objs o) c.offset bytes else objs o

/-- The C string a value buffer holds. -/
def cText (data : List UInt8) : List UInt8 := data.takeWhile (· ≠ 0)

def maxVal (type : ℕ) : UInt32 :=
  if type = typeU16 then 0xFFFF else if type = typeU8 then 0xFF else 0xFFFFFFFF

/-- Width of a numeric variable in bytes. -/
def typeWidth (type : ℕ) : ℕ :=
  if type = typeU32 then 4 else if type = typeU16 then 2 else 1

/-- Store a number, then check its range. -/
def storeNumber (c : CompareMap ω) (objs : Objects ω) (val : UInt32) : LcfgStatus × Objects ω :=
  let objs := c.store objs (leBytes (typeWidth c.type) val.toNat)
  if val > maxVal c.type then (.error, objs) else (.ok, objs)

section Handler
variable (sscanf : List UInt8 → ScanResult)

/-- What the handler does with the entry it found; a value that ends before a
digit is taken as 0, since only a result of 0 counts as a failed scan. -/
def handleEntryOf (c : CompareMap ω) (objs : Objects ω) (data : List UInt8) :
    LcfgStatus × Objects ω :=
  if c.type = typeS then (.ok, c.store objs (terminated (cText data)))
  else if c.type = typeU32 ∨ c.type = typeU16 ∨ c.type = typeU8 then
    match sscanf (cText data) with
    | .failure => (.ok, objs)
    | .eof => storeNumber c objs 0
    | .number val => storeNumber c objs val
  else (.error, objs)

/-- compare_eventhandler over any sscanf with %x. -/
def compareEventhandlerOf (table : List (CompareMap ω)) (objs : Objects ω) (key : String)
    (data : List UInt8) : LcfgStatus × Objects ω :=
  match table.find? fun c => c.name == key with
  | none => (.ok, objs)
  | some c => handleEntryOf sscanf c objs data

end Handler

def handleEntry (c : CompareMap ω) (objs : Objects ω) (data : List UInt8) :
    LcfgStatus × Objects ω := handleEntryOf sscanfHex c objs data

def compareEventhandler (table : List (CompareMap ω)) (objs : Objects ω) (key : String)
    (data : List UInt8) : LcfgStatus × Objects ω :=
  compareEventhandlerOf sscanfHex table objs key data

/-! ### lcfg_accept -/

/-- A key and its value in a configuration file. -/
abbrev Pair := String × List UInt8

def lcfgAccept (table : List (CompareMap ω)) :
    List Pair → Objects ω → LcfgStatus × Objects ω
  | [], objs => (.ok, objs)
  | (key, data) :: pairs, objs =>
      match compareEventhandler table objs key data with
      | (.ok, objs) => lcfgAccept table pairs objs
      | (.error, objs) => (.error, objs)

/-- The configuration file a main was given: none, one lcfg_new or lcfg_parse fails
on, or the pairs of one that parses. -/
inductive ConfigFile where
  | absent
  | notCreated
  | notParsed
  | parsed (pairs : List Pair)

/-- The handler returns an error for the pair, whatever it is called with. -/
def Rejected (table : List (CompareMap ω)) (pair : Pair) : Prop :=
  ∀ objs : Objects ω, (compareEventhandler table objs pair.1 pair.2).1 = .error

/-- What the handler returns does not depend on what the variables hold. -/
theorem compareEventhandler_status (table : List (CompareMap ω)) (objs objs' : Objects ω)
    (key : String) (data : List UInt8) :
    (compareEventhandler table objs key data).1 = (compareEventhandler table objs' key data).1 := by
  have hnumber : ∀ (c : CompareMap ω) (val : UInt32),
      (storeNumber c objs val).1 = (storeNumber c objs' val).1 := by
    intro c val
    unfold storeNumber
    split <;> rfl
  unfold compareEventhandler compareEventhandlerOf
  split
  · rfl
  · rename_i c _
    unfold handleEntryOf
    split
    · rfl
    · split
      · split
        · rfl
        · exact hnumber c 0
        · exact hnumber c _
      · rfl

theorem rejected_iff (table : List (CompareMap ω)) (objs : Objects ω) (pair : Pair) :
    Rejected table pair ↔ (compareEventhandler table objs pair.1 pair.2).1 = .error := by
  refine ⟨fun h => h objs, fun h objs' => ?_⟩
  rw [compareEventhandler_status table objs' objs, h]

/-- The traversal is successful exactly if no pair is rejected. -/
theorem lcfgAccept_ok_iff (table : List (CompareMap ω)) (pairs : List Pair) (objs : Objects ω) :
    (lcfgAccept table pairs objs).1 = .ok ↔ ∀ pair ∈ pairs, ¬ Rejected table pair := by
  induction pairs generalizing objs with
  | nil => simp [lcfgAccept]
  | cons pair pairs ih =>
    have hrej := rejected_iff table objs pair
    simp only [List.forall_mem_cons, hrej]
    rw [lcfgAccept]
    cases hstep : compareEventhandler table objs pair.1 pair.2 with
    | mk status objs' =>
      cases status with
      | ok => simpa using ih objs'
      | error => simp

/-- A table of words and strings rejects no value. -/
theorem not_rejected_of_words (table : List (CompareMap ω)) [Nonempty (Objects ω)]
    (h : ∀ c ∈ table, c.type = typeU32 ∨ c.type = typeS) (pair : Pair) :
    ¬ Rejected table pair := by
  intro hrej
  have herror := hrej (Classical.arbitrary (Objects ω))
  unfold compareEventhandler compareEventhandlerOf at herror
  split at herror
  · cases herror
  · rename_i c hc
    rcases h c (List.mem_of_find?_eq_some hc) with htype | htype
    · have hword : ∀ val : UInt32,
          (storeNumber c (Classical.arbitrary (Objects ω)) val).1 = .ok := by
        intro val
        have hmax : ¬ val > maxVal c.type := by
          rw [htype, show maxVal typeU32 = 0xFFFFFFFF from rfl, gt_iff_lt, UInt32.lt_iff_toNat_lt]
          have := val.toNat_lt
          have hall : (0xFFFFFFFF : UInt32).toNat = 2 ^ 32 - 1 := rfl
          omega
        rw [storeNumber, if_neg hmax]
      rw [handleEntryOf, if_neg (by rw [htype]; decide), if_pos (Or.inl htype)] at herror
      split at herror
      · cases herror
      · rw [hword] at herror
        cases herror
      · rw [hword] at herror
        cases herror
    · rw [handleEntryOf, if_pos htype] at herror
      cases herror

end OmapBootUtils.ConfigHandler
