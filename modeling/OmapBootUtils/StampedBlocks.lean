import OmapBootUtils.RecordChain

/-!
Blocks that are stored with holes. A pattern says of each byte of a block what is
stored there, or that the byte keeps what the memory had. What is read back depends
on the memory before exactly if the pattern has a hole.
-/
namespace OmapBootUtils.StampedBlocks

open ByteMemory RecordChain

abbrev Pattern := List (Option UInt8)

def stamp (s : Memory) (a : ℕ) (p : Pattern) : Memory :=
  fun j => if a ≤ j then ((p[j - a]?).join).getD (s j) else s j

theorem stamp_at (s : Memory) (a i : ℕ) (p : Pattern) :
    stamp s a p (a + i) = ((p[i]?).join).getD (s (a + i)) := by
  simp [stamp]

theorem stamp_outside (s : Memory) (a j : ℕ) (p : Pattern) (h : j < a ∨ a + p.length ≤ j) :
    stamp s a p j = s j := by
  unfold stamp
  split
  · have hlen : p.length ≤ j - a := by omega
    simp [List.getElem?_eq_none hlen]
  · rfl

@[simp] theorem stamp_nil (s : Memory) (a : ℕ) : stamp s a [] = s := by
  funext j
  exact stamp_outside s a j [] (by simp; omega)

theorem stamp_append (s : Memory) (a : ℕ) (p q : Pattern) :
    stamp s a (p ++ q) = stamp (stamp s a p) (a + p.length) q := by
  funext j
  by_cases hlow : j < a + p.length
  · rw [stamp_outside _ (a + p.length) j q (Or.inl hlow)]
    unfold stamp
    split
    · rw [List.getElem?_append_left (by omega)]
    · rfl
  · have hafter : a ≤ j ∧ a + p.length ≤ j := by omega
    rw [stamp, if_pos hafter.1, List.getElem?_append_right (by omega), stamp,
      if_pos hafter.2, stamp_outside s a j p (by omega), Nat.sub_sub]

/-! ### Holes -/

/-- Byte `i` of the block is left as it was. -/
def Hole (p : Pattern) (i : ℕ) : Prop := p[i]? = some none

def Determined (p : Pattern) : Prop := ∀ i, ¬ Hole p i

theorem Hole.lt_length {p : Pattern} {i : ℕ} (h : Hole p i) : i < p.length := by
  by_contra hout
  rw [Hole, List.getElem?_eq_none (Nat.le_of_not_lt hout)] at h
  cases h

@[simp] theorem determined_nil : Determined [] := by
  intro i h
  exact absurd h.lt_length (Nat.not_lt_zero i)

theorem determined_append_iff (p q : Pattern) :
    Determined (p ++ q) ↔ Determined p ∧ Determined q := by
  have hleft : ∀ i, i < p.length → (Hole (p ++ q) i ↔ Hole p i) := by
    intro i hi
    rw [Hole, List.getElem?_append_left hi, Hole]
  have hright : ∀ i, Hole (p ++ q) (p.length + i) ↔ Hole q i := by
    intro i
    rw [Hole, List.getElem?_append_right (Nat.le_add_right _ _), Nat.add_sub_cancel_left, Hole]
  constructor
  · intro h
    exact ⟨fun i hi => h i ((hleft i hi.lt_length).mpr hi),
      fun i hi => h (p.length + i) ((hright i).mpr hi)⟩
  · intro h i hi
    by_cases hlow : i < p.length
    · exact h.1 i ((hleft i hlow).mp hi)
    · obtain ⟨k, rfl⟩ := Nat.exists_eq_add_of_le (Nat.le_of_not_lt hlow)
      exact h.2 k ((hright k).mp hi)

/-- The block reads the same over any two memories exactly if it has no hole. -/
theorem readBytes_stamp_iff (a : ℕ) (p : Pattern) :
    (∀ s t, readBytes (stamp s a p) a p.length = readBytes (stamp t a p) a p.length) ↔
      Determined p := by
  constructor
  · intro h i hi
    have heq := eq_of_readBytes_eq _ _ a a _ i (h (fun _ => 0) (fun _ => 1)) hi.lt_length
    rw [stamp_at, stamp_at, hi] at heq
    exact absurd heq (by decide)
  · intro h s t
    apply readBytes_congr
    intro i hi
    rw [stamp_at, stamp_at, List.getElem?_eq_getElem hi]
    cases hcell : p[i] with
    | none => exact absurd ((List.getElem?_eq_getElem hi).trans (congrArg some hcell)) (h i)
    | some v => rfl

/-! ### Storing into a pattern -/

def blank (len : ℕ) : Pattern := List.replicate len none

@[simp] theorem blank_length (len : ℕ) : (blank len).length = len := List.length_replicate

theorem hole_blank (len i : ℕ) : Hole (blank len) i ↔ i < len := by
  simp [Hole, blank, List.getElem?_replicate]

theorem stamp_blank (s : Memory) (a len : ℕ) : stamp s a (blank len) = s := by
  funext j
  unfold stamp blank
  rw [List.getElem?_replicate]
  split
  · split <;> rfl
  · rfl

/-- The pattern with these bytes stored at an offset. -/
def overlay (p : Pattern) (off : ℕ) (bytes : List UInt8) : Pattern :=
  p.mapIdx fun i cell => if off ≤ i then (bytes[i - off]?).or cell else cell

@[simp] theorem overlay_length (p : Pattern) (off : ℕ) (bytes : List UInt8) :
    (overlay p off bytes).length = p.length := List.length_mapIdx

theorem getElem?_overlay (p : Pattern) (off : ℕ) (bytes : List UInt8) (i : ℕ) :
    (overlay p off bytes)[i]? =
      (p[i]?).map fun cell => if off ≤ i then (bytes[i - off]?).or cell else cell :=
  List.getElem?_mapIdx

theorem hole_overlay (p : Pattern) (off : ℕ) (bytes : List UInt8) (i : ℕ) :
    Hole (overlay p off bytes) i ↔ Hole p i ∧ ¬ (off ≤ i ∧ i < off + bytes.length) := by
  rw [Hole, getElem?_overlay, Option.map_eq_some_iff]
  constructor
  · intro h
    obtain ⟨cell, hcell, hnone⟩ := h
    by_cases hoff : off ≤ i
    · rw [if_pos hoff, Option.or_eq_none_iff, List.getElem?_eq_none_iff] at hnone
      obtain ⟨hpast, rfl⟩ := hnone
      exact ⟨hcell, by omega⟩
    · rw [if_neg hoff] at hnone
      subst hnone
      exact ⟨hcell, by omega⟩
  · intro h
    refine ⟨none, h.1, ?_⟩
    split
    · rw [List.getElem?_eq_none (by omega)]
      rfl
    · rfl

theorem putBytes_stamp (s : Memory) (a off : ℕ) (p : Pattern) (bytes : List UInt8)
    (h : off + bytes.length ≤ p.length) :
    putBytes (stamp s a p) (a + off) bytes = stamp s a (overlay p off bytes) := by
  funext j
  by_cases hbefore : j < a
  · rw [putBytes_outside _ _ _ _ (by omega), stamp_outside _ _ _ _ (Or.inl hbefore),
      stamp_outside _ _ _ _ (Or.inl hbefore)]
  obtain ⟨i, rfl⟩ := Nat.exists_eq_add_of_le (Nat.le_of_not_lt hbefore)
  rw [stamp_at, getElem?_overlay]
  by_cases hin : off ≤ i ∧ i < off + bytes.length
  · obtain ⟨k, rfl⟩ := Nat.exists_eq_add_of_le hin.1
    have hk : k < bytes.length := by omega
    have hcell : off + k < p.length := by omega
    rw [← Nat.add_assoc, putBytes_at _ _ _ k hk, List.getElem?_eq_getElem hcell]
    simp [hk]
  · rw [putBytes_outside _ _ _ _ (by omega), stamp_at]
    congr 2
    cases hcell : p[i]? with
    | none => rfl
    | some cell =>
      rw [Option.map_some]
      split
      · rw [List.getElem?_eq_none (by omega)]
        rfl
      · rfl

def overlayWords (p : Pattern) (words : List (ℕ × UInt32)) : Pattern :=
  words.foldl (fun p w => overlay p w.1 (u32Bytes w.2)) p

@[simp] theorem overlayWords_length (p : Pattern) (words : List (ℕ × UInt32)) :
    (overlayWords p words).length = p.length := by
  induction words generalizing p with
  | nil => rfl
  | cons w words ih => exact (ih _).trans (overlay_length _ _ _)

theorem hole_overlayWords (p : Pattern) (words : List (ℕ × UInt32)) (i : ℕ) :
    Hole (overlayWords p words) i ↔ Hole p i ∧ ∀ w ∈ words, ¬ (w.1 ≤ i ∧ i < w.1 + 4) := by
  induction words generalizing p with
  | nil => simp [overlayWords]
  | cons w words ih =>
    rw [overlayWords, List.foldl_cons, ← overlayWords, ih, hole_overlay, u32Bytes_length,
      List.forall_mem_cons, and_assoc]

/-- The words at their offsets in a block of `len` bytes. -/
def wordsPattern (len : ℕ) (words : List (ℕ × UInt32)) : Pattern := overlayWords (blank len) words

@[simp] theorem wordsPattern_length (len : ℕ) (words : List (ℕ × UInt32)) :
    (wordsPattern len words).length = len := by
  rw [wordsPattern, overlayWords_length, blank_length]

theorem hole_wordsPattern (len : ℕ) (words : List (ℕ × UInt32)) (i : ℕ) :
    Hole (wordsPattern len words) i ↔ i < len ∧ ∀ w ∈ words, ¬ (w.1 ≤ i ∧ i < w.1 + 4) := by
  rw [wordsPattern, hole_overlayWords, hole_blank]

/-! ### Builders -/

/-- The builder stamps the pattern and moves past it, wherever it fits. -/
def Stamps (size : ℕ) (f : Cursor → Option Cursor) (p : Pattern) : Prop :=
  ∀ c, c.pos + p.length ≤ size → f c = some ⟨c.pos + p.length, stamp c.mem c.pos p⟩

section Stamps
variable {size : ℕ} {f g : Cursor → Option Cursor} {p q : Pattern}

theorem Stamps.nothing (size : ℕ) : Stamps size some [] := by
  intro c _
  rw [stamp_nil]
  rfl

theorem Stamps.append (hf : Stamps size f p) (hg : Stamps size g q) :
    Stamps size (fun c => (f c).bind g) (p ++ q) := by
  intro c hfits
  rw [List.length_append] at hfits ⊢
  simp only [hf c (by omega), Option.bind_some]
  rw [hg _ (by simp only; omega), stamp_append, Nat.add_assoc]

theorem Stamps.unless (skip : Prop) [Decidable skip] (hf : Stamps size f p) :
    Stamps size (fun c => if skip then some c else f c) (if skip then [] else p) := by
  by_cases h : skip
  · simp only [if_pos h]
    exact Stamps.nothing size
  · simp only [if_neg h]
    exact hf

end Stamps

/-- Words stored in any order stamp their pattern. -/
theorem putWords_stamp (size : ℕ) (c : Cursor) (p : Pattern) (words : List (ℕ × UInt32))
    (hlen : ∀ w ∈ words, w.1 + 4 ≤ p.length) (hfits : c.pos + p.length ≤ size) :
    Cursor.putWords size { c with mem := stamp c.mem c.pos p } words =
      some { c with mem := stamp c.mem c.pos (overlayWords p words) } := by
  induction words generalizing p with
  | nil => rfl
  | cons w words ih =>
    obtain ⟨hw, hrest⟩ := List.forall_mem_cons.mp hlen
    rw [Cursor.putWords_cons, Cursor.putWord,
      Cursor.put_inside _ _ _ _ (by rw [u32Bytes_length]; simp only; omega), Option.bind_some]
    simp only
    rw [putBytes_stamp _ _ _ _ _ (by rwa [u32Bytes_length])]
    exact ih (overlay p w.1 (u32Bytes w.2)) (by simpa using hrest) (by simpa using hfits)

theorem putWords_wordsPattern (size len : ℕ) (c : Cursor) (words : List (ℕ × UInt32))
    (hlen : ∀ w ∈ words, w.1 + 4 ≤ len) (hfits : c.pos + len ≤ size) :
    c.putWords size words = some { c with mem := stamp c.mem c.pos (wordsPattern len words) } := by
  have h := putWords_stamp size c (blank len) words (by simpa using hlen) (by simpa using hfits)
  rwa [stamp_blank] at h

end OmapBootUtils.StampedBlocks
