import OmapBootUtils.CallMachine
import OmapBootUtils.Win32Read

/-!
The two backends of file.h. Each keeps the file it has open in a static variable. Over
any sequence of calls they return the same results as long as f_size is asked about
files that can be read, are below 2 GiB, and not while a file is open, and fclose
does not fail.
-/
namespace OmapBootUtils.FileBackends

open ByteMemory CallMachine
open LinkCalls (fileOk fileError fileRet)
open Win32Read (intRet Delivering posixFRead)

/-- The files by name: what they hold, and whether they may be read. -/
structure FileSystem (ν : Type) where
  content : ν → Option (List UInt8)
  readable : ν → Bool

/-- A file that is open for reading. -/
structure OpenFile where
  content : List UInt8
  position : ℕ
  deriving DecidableEq, Repr

/-- A call with its arguments, and the results of the calls of the system it makes: what
each ReadFile may deliver, and whether fclose succeeds. -/
inductive FileCall (ν : Type) where
  | fSize (name : ν)
  | fOpen (name : ν)
  | fRead (buffer : ℕ) (readSize : UInt32) (mem : Memory) (results : List (Option ℕ))
  | fClose (fcloseOk : Bool)

/-- What a call returns, and what a read leaves in memory. -/
structure Outcome where
  ret : ℤ
  mem : Option Memory

section Backends
variable {ν : Type} (fs : FileSystem ν)

/-- The content of a file that is opened for reading. -/
def FileSystem.opened (name : ν) : Option (List UInt8) :=
  if fs.readable name then fs.content name else none

/-! ### file_posix.c -/

namespace Posix

/-- stat does not open the file. -/
def fSize (name : ν) : ℤ :=
  match fs.content name with
  | none => fileError
  | some content => content.length

def fOpen (file : Option OpenFile) (name : ν) : ℤ × Option OpenFile :=
  if file.isSome then (fileError, file) else
  match fs.opened name with
  | none => (fileError, none)
  | some content => (fileOk, some ⟨content, 0⟩)

def fRead (file : Option OpenFile) (buffer : ℕ) (readSize : UInt32) (mem : Memory) :
    Outcome × Option OpenFile :=
  match file with
  | none => (⟨fileError, some mem⟩, none)
  | some f =>
      let out := posixFRead true f.content buffer readSize mem f.position
      (⟨out.ret, some out.mem⟩, some { f with position := out.position })

/-- The file counts as closed also when fclose fails. -/
def fClose (file : Option OpenFile) (fcloseOk : Bool) : ℤ × Option OpenFile :=
  if file.isNone then (fileError, file) else (fileRet fcloseOk, none)

def perform (file : Option OpenFile) : FileCall ν → Outcome × Option OpenFile
  | .fSize name => (⟨fSize fs name, none⟩, file)
  | .fOpen name => (⟨(fOpen fs file name).1, none⟩, (fOpen fs file name).2)
  | .fRead buffer readSize mem _ => fRead file buffer readSize mem
  | .fClose fcloseOk => (⟨(fClose file fcloseOk).1, none⟩, (fClose file fcloseOk).2)

end Posix

/-! ### file_win32.c -/

namespace Win32

/-- GetFileSize gives the size in two words; a long has 32 bits. -/
def fSize (handle : Option OpenFile) (name : ν) : ℤ :=
  if handle.isSome then fileError else
  match fs.opened name with
  | none => fileError
  | some content =>
      let low := content.length % 2 ^ 32
      let high := content.length / 2 ^ 32 % 2 ^ 32
      if high = 0 ∧ low ≠ 0xFFFFFFFF then intRet low else fileError

def fOpen (handle : Option OpenFile) (name : ν) : ℤ × Option OpenFile :=
  if handle.isSome then (fileError, handle) else
  match fs.opened name with
  | none => (fileError, none)
  | some content => (fileOk, some ⟨content, 0⟩)

/-- Nothing while ReadFile has not returned. -/
def fRead (handle : Option OpenFile) (buffer : ℕ) (readSize : UInt32) (mem : Memory)
    (results : List (Option ℕ)) : Option (Outcome × Option OpenFile) :=
  match handle with
  | none => some (⟨fileError, some mem⟩, none)
  | some f =>
      match (Win32Read.fRead true f.content results buffer readSize mem f.position).status with
      | .done out => some (⟨out.ret, some out.mem⟩, some { f with position := out.position })
      | _ => none

/-- The result of CloseHandle is not looked at. -/
def fClose (handle : Option OpenFile) : ℤ × Option OpenFile :=
  if handle.isNone then (fileError, handle) else (fileOk, none)

def perform (handle : Option OpenFile) : FileCall ν → Option (Outcome × Option OpenFile)
  | .fSize name => some (⟨fSize fs handle name, none⟩, handle)
  | .fOpen name => some (⟨(fOpen fs handle name).1, none⟩, (fOpen fs handle name).2)
  | .fRead buffer readSize mem results => fRead handle buffer readSize mem results
  | .fClose _ => some (⟨(fClose handle).1, none⟩, (fClose handle).2)

end Win32

/-! ### Side by side -/

/-- The static variables of the two backends. -/
structure Pair where
  posix : Option OpenFile
  win32 : Option OpenFile

def start : Pair := ⟨none, none⟩

/-- The same calls, made to both. -/
def backends : Machine Pair (FileCall ν) (Outcome × Option Outcome) where
  next s c := ⟨(Posix.perform fs s.posix c).2,
    ((Win32.perform fs s.win32 c).map Prod.snd).getD s.win32⟩
  events s c := [((Posix.perform fs s.posix c).1, (Win32.perform fs s.win32 c).map Prod.fst)]

/-- The call returns the same from both. -/
def Agree (s : Pair) (c : FileCall ν) : Prop :=
  (Win32.perform fs s.win32 c).map Prod.fst = some (Posix.perform fs s.posix c).1

/-- ReadFile succeeds, delivers a byte as long as there is one, and returns often enough. -/
def FileCall.Delivers : FileCall ν → Prop
  | .fRead _ readSize _ results => Delivering results ∧ readSize.toNat ≤ results.length
  | _ => True

inductive Phase where
  | closed
  | opened
  deriving DecidableEq, Repr

/-- The next phase, as long as nothing is asked that only one backend can do: the size of a
file while one is open, of one that cannot be read, or of one from 2 GiB on; or an fclose
that fails. -/
def Phase.next : Phase → FileCall ν → Option Phase
  | .closed, .fSize name =>
      match fs.content name with
      | none => some .closed
      | some content =>
          if fs.readable name ∧ content.length < 2 ^ 31 then some .closed else none
  | .opened, .fSize name => if (fs.content name).isSome then none else some .opened
  | .closed, .fOpen name => some (if (fs.opened name).isSome then .opened else .closed)
  | .opened, .fClose fcloseOk => if fcloseOk then some .closed else none
  | p, _ => some p

/-- Both backends have the same file open, or none. -/
def Holds : Phase → Pair → Prop
  | .closed, s => s.posix = none ∧ s.win32 = none
  | .opened, s => ∃ f, s.posix = some f ∧ s.win32 = some f

/-! ### One call -/

theorem intRet_lt (count : ℕ) : intRet count < 2 ^ 31 := by
  have h := Int.bmod_lt (x := (count : ℤ)) (m := 2 ^ 32) (by omega)
  unfold intRet
  omega

/-- The sizes agree for a file that both can give the size of. -/
theorem fSize_eq_iff (name : ν) :
    Win32.fSize fs none name = Posix.fSize fs name ↔
      ∀ content, fs.content name = some content →
        fs.readable name = true ∧ content.length < 2 ^ 31 := by
  unfold Win32.fSize Posix.fSize FileSystem.opened
  cases hcontent : fs.content name with
  | none => cases fs.readable name <;> simp
  | some content =>
    have hnegative : fileError ≠ (content.length : ℤ) := by
      unfold fileError
      omega
    cases hreadable : fs.readable name with
    | false => simp [hnegative]
    | true =>
      simp only [Option.isSome_none, Bool.false_eq_true, if_false, if_true, Option.some.injEq,
        forall_eq', true_and]
      constructor
      · intro heq
        split at heq
        · have hlt := intRet_lt (content.length % 2 ^ 32)
          rw [heq] at hlt
          omega
        · exact absurd heq hnegative
      · intro hsmall
        have hlow : content.length % 2 ^ 32 = content.length := Nat.mod_eq_of_lt (by omega)
        have hhigh : content.length / 2 ^ 32 % 2 ^ 32 = 0 := by omega
        rw [hlow, hhigh, if_pos ⟨rfl, by omega⟩, Win32Read.intRet_small _ hsmall]

theorem fOpen_eq (file : Option OpenFile) (name : ν) :
    Win32.fOpen fs file name = Posix.fOpen fs file name := rfl

/-- Over any split ReadFile does what fread does. -/
theorem fRead_eq (file : Option OpenFile) (buffer : ℕ) (readSize : UInt32) (mem : Memory)
    (results : List (Option ℕ)) (hresults : Delivering results)
    (hlong : readSize.toNat ≤ results.length) :
    Win32.fRead file buffer readSize mem results = some (Posix.fRead file buffer readSize mem) := by
  cases file with
  | none => rfl
  | some f =>
    have hdone := Win32Read.fRead_eq_posix f.content results buffer readSize mem f.position
      hresults hlong
    simp only [Win32.fRead, Posix.fRead, hdone]

theorem next_fSize (p p' : Phase) (name : ν) (h : Phase.next fs p (.fSize name) = some p') :
    p' = p ∧ ∀ content, fs.content name = some content →
      p = .closed ∧ fs.readable name = true ∧ content.length < 2 ^ 31 := by
  cases p with
  | closed =>
    cases hcontent : fs.content name with
    | none =>
      simp only [Phase.next, hcontent] at h
      exact ⟨(Option.some.inj h).symm, by simp⟩
    | some content =>
      simp only [Phase.next, hcontent] at h
      split at h
      case isTrue hasked => exact ⟨(Option.some.inj h).symm, by simpa using hasked⟩
      case isFalse => cases h
  | opened =>
    cases hcontent : fs.content name with
    | none =>
      simp only [Phase.next, hcontent, Option.isSome_none, Bool.false_eq_true, if_false] at h
      exact ⟨(Option.some.inj h).symm, by simp⟩
    | some content => simp [Phase.next, hcontent] at h

/-- A call both can do while no file is open. -/
theorem agree_closed (p' : Phase) (c : FileCall ν) (hdelivers : c.Delivers)
    (hnext : Phase.next fs .closed c = some p') :
    Agree fs start c ∧ Holds p' ((backends fs).next start c) := by
  cases c with
  | fSize name =>
    obtain ⟨rfl, hasked⟩ := next_fSize fs .closed p' name hnext
    have hsize := (fSize_eq_iff fs name).mpr fun content hcontent => (hasked content hcontent).2
    exact ⟨by simp [Agree, start, Win32.perform, Posix.perform, hsize], rfl, rfl⟩
  | fOpen name =>
    refine ⟨rfl, ?_⟩
    cases hopened : fs.opened name with
    | none =>
      obtain rfl : Phase.closed = p' := by simpa [Phase.next, hopened] using hnext
      simp [Holds, backends, start, Win32.perform, Posix.perform, fOpen_eq, Posix.fOpen, hopened]
    | some content =>
      obtain rfl : Phase.opened = p' := by simpa [Phase.next, hopened] using hnext
      simp [Holds, backends, start, Win32.perform, Posix.perform, fOpen_eq, Posix.fOpen, hopened]
  | fRead buffer readSize mem results =>
    obtain rfl := Option.some.inj hnext
    exact ⟨rfl, rfl, rfl⟩
  | fClose fcloseOk =>
    obtain rfl := Option.some.inj hnext
    exact ⟨rfl, rfl, rfl⟩

/-- A call both can do while a file is open. -/
theorem agree_opened (f : OpenFile) (p' : Phase) (c : FileCall ν) (hdelivers : c.Delivers)
    (hnext : Phase.next fs .opened c = some p') :
    Agree fs ⟨some f, some f⟩ c ∧ Holds p' ((backends fs).next ⟨some f, some f⟩ c) := by
  cases c with
  | fSize name =>
    obtain ⟨rfl, hasked⟩ := next_fSize fs .opened p' name hnext
    have hnone : fs.content name = none := by
      cases hcontent : fs.content name with
      | none => rfl
      | some content => cases (hasked content hcontent).1
    refine ⟨?_, f, rfl, rfl⟩
    simp [Agree, Win32.perform, Posix.perform, Win32.fSize, Posix.fSize, hnone]
  | fOpen name =>
    obtain rfl := Option.some.inj hnext
    exact ⟨rfl, f, rfl, rfl⟩
  | fRead buffer readSize mem results =>
    obtain rfl := Option.some.inj hnext
    have hread := fRead_eq (some f) buffer readSize mem results hdelivers.1 hdelivers.2
    refine ⟨by simp [Agree, Win32.perform, Posix.perform, hread], ?_⟩
    simp [Holds, backends, Win32.perform, Posix.perform, hread, Posix.fRead]
  | fClose fcloseOk =>
    cases fcloseOk with
    | true =>
      obtain rfl := Option.some.inj hnext
      exact ⟨rfl, rfl, rfl⟩
    | false => cases hnext

theorem agree_of_next (p p' : Phase) (s : Pair) (c : FileCall ν) (h : Holds p s)
    (hdelivers : c.Delivers) (hnext : Phase.next fs p c = some p') :
    Agree fs s c ∧ Holds p' ((backends fs).next s c) := by
  obtain ⟨posix, win32⟩ := s
  cases p with
  | closed =>
    obtain ⟨rfl, rfl⟩ : posix = none ∧ win32 = none := h
    exact agree_closed fs p' c hdelivers hnext
  | opened =>
    obtain ⟨f, rfl, rfl⟩ : ∃ f, posix = some f ∧ win32 = some f := h
    exact agree_opened fs f p' c hdelivers hnext

/-- A call one backend alone can do. -/
theorem not_agree_of_next (p : Phase) (s : Pair) (c : FileCall ν) (h : Holds p s)
    (hnext : Phase.next fs p c = none) : ¬ Agree fs s c := by
  obtain ⟨posix, win32⟩ := s
  cases p with
  | closed =>
    obtain ⟨rfl, rfl⟩ : posix = none ∧ win32 = none := h
    cases c with
    | fSize name =>
      have hasked : ¬ ∀ content, fs.content name = some content →
          fs.readable name = true ∧ content.length < 2 ^ 31 := by
        intro hall
        cases hcontent : fs.content name with
        | none => simp [Phase.next, hcontent] at hnext
        | some content =>
          rw [Phase.next, hcontent] at hnext
          simp only [hall content hcontent, and_self, if_true] at hnext
          cases hnext
      rw [← fSize_eq_iff] at hasked
      simpa [Agree, Win32.perform, Posix.perform] using hasked
    | _ => cases hnext
  | opened =>
    obtain ⟨f, rfl, rfl⟩ : ∃ f, posix = some f ∧ win32 = some f := h
    cases c with
    | fSize name =>
      cases hcontent : fs.content name with
      | none => simp [Phase.next, hcontent] at hnext
      | some content =>
        have hnegative : fileError ≠ (content.length : ℤ) := by
          unfold fileError
          omega
        simpa [Agree, Win32.perform, Posix.perform, Win32.fSize, Posix.fSize, hcontent]
          using hnegative
    | fClose fcloseOk =>
      cases fcloseOk with
      | true => cases hnext
      | false => simp [Agree, Win32.perform, Posix.perform, Win32.fClose, Posix.fClose, fileRet,
          fileOk, fileError]
    | _ => cases hnext

/-! ### Sequences of calls -/

/-- Over any sequence of calls in which ReadFile delivers, the backends return the same if and
only if fclose does not fail and f_size is asked only with no file open, about files that are
below 2 GiB and can be read, or about files that do not exist. -/
theorem file_backends_agree_iff (cs : List (FileCall ν)) (hdelivers : ∀ c ∈ cs, c.Delivers) :
    (backends fs).Along (Agree fs) start cs ↔ (cs.foldlM (Phase.next fs) .closed).isSome := by
  apply (backends fs).along_iff_disciplined (Phase.next fs) Holds (fun _ c => c.Delivers)
    (Agree fs) _ _ .closed start ⟨rfl, rfl⟩ cs
  · exact (backends fs).along_of_forall _ start cs fun c hc _ => hdelivers c hc
  · exact fun p s c p' h hc hnext => agree_of_next fs p p' s c h hc hnext
  · exact fun p s c h _ hnext => not_agree_of_next fs p s c h hnext

end Backends

/-- One file, of three bytes. -/
def threeBytes : FileSystem Unit := ⟨fun _ => some [1, 2, 3], fun _ => true⟩

/-- The calls of a download; ReadFile delivers two bytes at a time. -/
def downloadCalls : List (FileCall Unit) :=
  [.fSize (), .fOpen (), .fRead 16 4 (fun _ => 0) [some 2, some 2, some 2, some 2], .fClose true]

theorem file_backends_agree_download : (backends threeBytes).Along (Agree threeBytes) start
    downloadCalls := by
  have hdelivers : ∀ c ∈ downloadCalls, c.Delivers := by
    simp [downloadCalls, FileCall.Delivers, Delivering]
  exact (file_backends_agree_iff threeBytes downloadCalls hdelivers).mpr (by decide)

end OmapBootUtils.FileBackends
