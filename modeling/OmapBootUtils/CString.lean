import OmapBootUtils.ByteMemory

/-!
NUL-terminated strings in memory. A string is read up to a limit; beyond it the
object that holds the string has ended and there is no string.
-/
namespace OmapBootUtils.CString

open ByteMemory

/-- The bytes before the first NUL, if there is one in the next `limit` bytes. -/
def cString (s : Memory) : ℕ → ℕ → Option (List UInt8)
  | _, 0 => none
  | a, limit + 1 => if s a = 0 then some [] else (cString s (a + 1) limit).map (s a :: ·)

def terminated (text : List UInt8) : List UInt8 := text ++ [0]

theorem cString_succ_eq_some_iff (s : Memory) (a limit : ℕ) (text : List UInt8) :
    cString s a (limit + 1) = some text ↔
      (s a = 0 ∧ text = []) ∨
        s a ≠ 0 ∧ ∃ rest, cString s (a + 1) limit = some rest ∧ text = s a :: rest := by
  rw [cString]
  by_cases h : s a = 0
  · simp [h, eq_comm]
  · simp [h, eq_comm]

theorem cString_spec (s : Memory) (a limit : ℕ) (text : List UInt8)
    (h : cString s a limit = some text) :
    text.length < limit ∧ (0 : UInt8) ∉ text ∧
      readBytes s a (text.length + 1) = terminated text := by
  induction limit generalizing a text with
  | zero => simp [cString] at h
  | succ limit ih =>
    rcases (cString_succ_eq_some_iff s a limit text).mp h with ⟨hzero, rfl⟩ |
      ⟨hne, rest, hrest, rfl⟩
    · simp [terminated, readBytes, hzero]
    · obtain ⟨hlen, hmem, hread⟩ := ih (a + 1) rest hrest
      refine ⟨by simpa using hlen, by simp [hmem, Ne.symm hne], ?_⟩
      rw [List.length_cons, readBytes_succ, hread]
      rfl

theorem cString_of_readBytes (s : Memory) (a limit : ℕ) (text : List UInt8)
    (hlen : text.length < limit) (hmem : (0 : UInt8) ∉ text)
    (hread : readBytes s a (text.length + 1) = terminated text) :
    cString s a limit = some text := by
  induction text generalizing a limit with
  | nil =>
    obtain ⟨limit, rfl⟩ := Nat.exists_eq_add_of_lt hlen
    have hzero : s a = 0 := by simpa [terminated, readBytes] using hread
    exact (cString_succ_eq_some_iff s a _ []).mpr (Or.inl ⟨hzero, rfl⟩)
  | cons b rest ih =>
    cases limit with
    | zero => simp at hlen
    | succ limit =>
      rw [List.length_cons, readBytes_succ, terminated, List.cons_append, List.cons.injEq] at hread
      obtain ⟨rfl, hrest⟩ := hread
      have hnext := ih (a + 1) limit (by simpa using hlen)
        (fun h => hmem (List.mem_cons_of_mem _ h)) hrest
      refine (cString_succ_eq_some_iff s a limit _).mpr (Or.inr ⟨?_, rest, hnext, rfl⟩)
      intro hzero
      exact hmem (hzero ▸ List.mem_cons_self ..)

/-- A string is still there when more of its object may be read. -/
theorem cString_mono (s : Memory) (a limit limit' : ℕ) (text : List UInt8)
    (h : cString s a limit = some text) (hle : limit ≤ limit') :
    cString s a limit' = some text := by
  obtain ⟨hlen, hmem, hread⟩ := cString_spec s a limit text h
  exact cString_of_readBytes s a limit' text (by omega) hmem hread

/-- A string depends only on the bytes of its object. -/
theorem cString_shift (s t : Memory) (a b limit : ℕ) (text : List UInt8)
    (h : cString s a limit = some text) (hst : ∀ i, i < limit → s (a + i) = t (b + i)) :
    cString t b limit = some text := by
  obtain ⟨hlen, hmem, hread⟩ := cString_spec s a limit text h
  apply cString_of_readBytes t b limit text hlen hmem
  rw [← hread]
  apply readBytes_shift
  intro i hi
  exact (hst i (by omega)).symm

/-- A terminated string reads back as it was written. -/
theorem cString_putBytes (s : Memory) (a limit : ℕ) (text : List UInt8)
    (hmem : (0 : UInt8) ∉ text) (hlen : text.length < limit) :
    cString (putBytes s a (terminated text)) a limit = some text := by
  apply cString_of_readBytes _ a limit text hlen hmem
  have hread := readBytes_putBytes s a (terminated text)
  rwa [show (terminated text).length = text.length + 1 by simp [terminated]] at hread

end OmapBootUtils.CString
