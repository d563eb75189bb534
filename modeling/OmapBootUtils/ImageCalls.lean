import OmapBootUtils.ByteMemory
import OmapBootUtils.ScriptedRun

/-!
The stdio calls of the image builders with their results, and the contents of
the output file read off them. fread reports the bytes it delivered; of what is
handed to fwrite, only the bytes it accepted reach the file.
-/
namespace OmapBootUtils.ImageCalls

open ScriptedRun

inductive ImageCall where
  | fopenRead (opened : Bool)
  | fopenWrite (opened : Bool)
  | stat (size : ℕ)
  | fread (size : ℕ) (data : List UInt8)
  | fwrite (data : List UInt8) (accepted : ℕ)
  | fclose
  deriving DecidableEq, Repr

abbrev Image := Run ImageCall

def ImageCall.stored : ImageCall → List UInt8
  | .fwrite data accepted => data.take accepted
  | _ => []

/-- The contents of the output file. -/
def stored (log : List ImageCall) : List UInt8 := log.flatMap ImageCall.stored

@[simp] theorem stored_append (l m : List ImageCall) : stored (l ++ m) = stored l ++ stored m :=
  List.flatMap_append

@[simp] theorem stored_nil : stored [] = [] := rfl

/-- `i++` on an int loop counter. -/
def increment (i : ℕ) : Image ℕ := if i + 1 = 2 ^ 31 then Run.crash else return i + 1

theorem increment_eq (i : ℕ) (h : i + 1 < 2 ^ 31) : increment i = pure (i + 1) := by
  rw [increment, if_neg (by omega)]

end OmapBootUtils.ImageCalls
