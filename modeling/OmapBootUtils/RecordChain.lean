import OmapBootUtils.ByteMemory

/-!
Chains of records in memory, each of which says how far the next one is. A
format says which bytes hold a record; builders append records at a cursor with
checked writes; a walk reads the chain back. A walk over what builders appended
visits exactly their records, whatever the widths of the records are.
-/
namespace OmapBootUtils.RecordChain

open ByteMemory

/-- When the `width r` bytes at a position hold the record `r`. -/
structure Format (ρ : Type) where
  width : ρ → ℕ
  Holds : Memory → ℕ → ρ → Prop
  holds_congr : ∀ s t a r, Holds s a r → (∀ j, a ≤ j → j < a + width r → s j = t j) → Holds t a r

namespace Format
variable {ρ : Type} (fmt : Format ρ)

def span (rs : List ρ) : ℕ := (rs.map fmt.width).sum

@[simp] theorem span_nil : fmt.span [] = 0 := rfl

@[simp] theorem span_cons (r : ρ) (rs : List ρ) :
    fmt.span (r :: rs) = fmt.width r + fmt.span rs := by
  simp [span]

@[simp] theorem span_append (rs ts : List ρ) : fmt.span (rs ++ ts) = fmt.span rs + fmt.span ts := by
  simp [span]

theorem length_le_span (rs : List ρ) (h : ∀ r, 0 < fmt.width r) : rs.length ≤ fmt.span rs := by
  induction rs with
  | nil => simp
  | cons r rs ih =>
    have := h r
    rw [span_cons, List.length_cons]
    omega

theorem dvd_span (n : ℕ) (rs : List ρ) (h : ∀ r, n ∣ fmt.width r) : n ∣ fmt.span rs := by
  induction rs with
  | nil => simp
  | cons r rs ih =>
    rw [span_cons]
    exact Nat.dvd_add (h r) ih

/-- The records lie one after the other from position `a` on. -/
def Laid (s : Memory) : ℕ → List ρ → Prop
  | _, [] => True
  | a, r :: rs => fmt.Holds s a r ∧ Laid s (a + fmt.width r) rs

theorem laid_append (s : Memory) (a : ℕ) (rs ts : List ρ) (hrs : fmt.Laid s a rs)
    (hts : fmt.Laid s (a + fmt.span rs) ts) : fmt.Laid s a (rs ++ ts) := by
  induction rs generalizing a with
  | nil => simpa using hts
  | cons r rs ih =>
    refine ⟨hrs.1, ih _ hrs.2 ?_⟩
    simpa [Nat.add_assoc] using hts

/-- A chain depends only on its own bytes. -/
theorem laid_congr (s t : Memory) (a : ℕ) (rs : List ρ) (h : fmt.Laid s a rs)
    (hst : ∀ j, a ≤ j → j < a + fmt.span rs → s j = t j) : fmt.Laid t a rs := by
  induction rs generalizing a with
  | nil => trivial
  | cons r rs ih =>
    rw [span_cons] at hst
    refine ⟨fmt.holds_congr s t a r h.1 fun j hj hlt => hst j hj (by omega), ?_⟩
    exact ih _ h.2 fun j hj hlt => hst j (by omega) (by omega)

end Format

/-! ### Walking a chain -/

/-- What a reader finds at a position: the end of the chain, or a record and the
position of the next one. -/
inductive Reading (ρ : Type) where
  | stop (e : ℕ)
  | record (r : ρ) (next : ℕ)

/-- The records from a position on and the position past the end of the chain. -/
def walk {ρ : Type} (read : ℕ → Option (Reading ρ)) : ℕ → ℕ → Option (List ρ × ℕ)
  | 0, _ => none
  | fuel + 1, a =>
      match read a with
      | none => none
      | some (.stop e) => some ([], e)
      | some (.record r next) => (walk read fuel next).map fun p => (r :: p.1, p.2)

/-- A walk over a chain visits its records in order and ends where it ends. -/
theorem walk_laid {ρ : Type} (fmt : Format ρ) (s : Memory) (read : ℕ → Option (Reading ρ))
    (hread : ∀ a r, fmt.Holds s a r → read a = some (.record r (a + fmt.width r)))
    (rs : List ρ) (a e : ℕ) (hlaid : fmt.Laid s a rs)
    (hstop : read (a + fmt.span rs) = some (.stop e)) (fuel : ℕ) (hfuel : rs.length < fuel) :
    walk read fuel a = some (rs, e) := by
  induction rs generalizing a fuel with
  | nil =>
    obtain ⟨fuel, rfl⟩ := Nat.exists_eq_add_of_lt hfuel
    rw [Format.span_nil, Nat.add_zero] at hstop
    simp [walk, hstop]
  | cons r rs ih =>
    cases fuel with
    | zero => simp at hfuel
    | succ fuel =>
      have hnext := ih (a + fmt.width r) hlaid.2
        (by simpa [Nat.add_assoc] using hstop) fuel (by simpa using hfuel)
      simp [walk, hread a r hlaid.1, hnext]

/-! ### Building a chain -/

/-- A position in a buffer and the contents of the buffer. -/
structure Cursor where
  pos : ℕ
  mem : Memory

/-- Write a block at an offset from the cursor, inside a buffer of `size` bytes. -/
def Cursor.put (size : ℕ) (c : Cursor) (off : ℕ) (bytes : List UInt8) : Option Cursor :=
  (writeBytes size c.mem (c.pos + off) bytes).map fun mem => { c with mem := mem }

theorem Cursor.put_inside (size : ℕ) (c : Cursor) (off : ℕ) (bytes : List UInt8)
    (h : c.pos + off + bytes.length ≤ size) :
    c.put size off bytes = some { c with mem := putBytes c.mem (c.pos + off) bytes } := by
  simp [put, writeBytes_inside size c.mem (c.pos + off) bytes h]

theorem Cursor.put_eq_some_iff (size : ℕ) (c c' : Cursor) (off : ℕ) (bytes : List UInt8) :
    c.put size off bytes = some c' ↔ c.pos + off + bytes.length ≤ size ∧
      c' = { c with mem := putBytes c.mem (c.pos + off) bytes } := by
  unfold put writeBytes
  split
  · rename_i h
    simp [h, eq_comm]
  · rename_i h
    simp [h]

def Cursor.putWord (size : ℕ) (c : Cursor) (off : ℕ) (v : UInt32) : Option Cursor :=
  c.put size off (u32Bytes v)

/-- Write words at offsets from the cursor. -/
def Cursor.putWords (size : ℕ) (c : Cursor) (words : List (ℕ × UInt32)) : Option Cursor :=
  words.foldlM (fun c w => c.putWord size w.1 w.2) c

/-- Words at offsets that do not overlap. -/
def Apart (words : List (ℕ × UInt32)) : Prop :=
  words.Pairwise fun v w => v.1 + 4 ≤ w.1 ∨ w.1 + 4 ≤ v.1

instance (words : List (ℕ × UInt32)) : Decidable (Apart words) := by
  unfold Apart
  infer_instance

theorem Cursor.putWords_cons (size : ℕ) (c : Cursor) (w : ℕ × UInt32)
    (words : List (ℕ × UInt32)) :
    c.putWords size (w :: words) = (c.putWord size w.1 w.2).bind fun c => c.putWords size words :=
  rfl

/-- Words apart from each other and inside the buffer all read back; nothing
else changes. -/
theorem Cursor.putWords_inside (size : ℕ) (c : Cursor) (words : List (ℕ × UInt32)) (len : ℕ)
    (hapart : Apart words) (hlen : ∀ w ∈ words, w.1 + 4 ≤ len) (hfits : c.pos + len ≤ size) :
    ∃ mem, c.putWords size words = some { c with mem := mem } ∧
      (∀ w ∈ words, readU32 mem (c.pos + w.1) = w.2) ∧
      (∀ a, (∀ w ∈ words, a + 4 ≤ c.pos + w.1 ∨ c.pos + w.1 + 4 ≤ a) →
        readU32 mem a = readU32 c.mem a) ∧
      ∀ j, j < c.pos ∨ c.pos + len ≤ j → mem j = c.mem j := by
  induction words generalizing c with
  | nil => exact ⟨c.mem, rfl, by simp, fun a _ => rfl, fun j _ => rfl⟩
  | cons w words ih =>
    have hw := hlen w (by simp)
    have hput : c.putWord size w.1 w.2 = some { c with mem := putU32 c.mem (c.pos + w.1) w.2 } :=
      put_inside size c w.1 (u32Bytes w.2) (by rw [u32Bytes_length]; omega)
    obtain ⟨mem, hrest, hread, hother, hframe⟩ :=
      ih { c with mem := putU32 c.mem (c.pos + w.1) w.2 } (List.Pairwise.of_cons hapart)
        (fun v hv => hlen v (by simp [hv])) hfits
    refine ⟨mem, ?_, ?_, ?_, ?_⟩
    · rw [putWords_cons, hput]
      exact hrest
    · intro v hv
      rcases List.mem_cons.mp hv with rfl | hv
      · rw [hother (c.pos + v.1) fun u hu => ?_]
        · exact readU32_putU32 c.mem (c.pos + v.1) v.2
        · have := List.rel_of_pairwise_cons hapart hu
          simp only
          omega
      · exact hread v hv
    · intro a ha
      rw [hother a fun v hv => ha v (by simp [hv])]
      exact readU32_putU32_other c.mem (c.pos + w.1) a w.2 (ha w (by simp))
    · intro j hj
      rw [hframe j hj]
      exact putU32_outside c.mem (c.pos + w.1) j w.2 (by omega)

/-- The first word that leaves the buffer stops the writing. -/
theorem Cursor.putWords_outside (size : ℕ) (c : Cursor) (words : List (ℕ × UInt32))
    (h : ∃ w ∈ words, size < c.pos + w.1 + 4) : c.putWords size words = none := by
  induction words generalizing c with
  | nil => simp at h
  | cons w words ih =>
    rw [putWords_cons]
    cases hput : c.putWord size w.1 w.2 with
    | none => rfl
    | some c' =>
      obtain ⟨hin, rfl⟩ := (put_eq_some_iff size c c' w.1 (u32Bytes w.2)).mp hput
      rw [u32Bytes_length] at hin
      obtain ⟨v, hv, hout⟩ := h
      rcases List.mem_cons.mp hv with rfl | hv
      · omega
      · exact ih _ ⟨v, hv, hout⟩

section Builders
variable {ρ : Type} (fmt : Format ρ) (size : ℕ)

/-- The cursor `c'` is `c` with the records `rs` appended. -/
structure Appended (c : Cursor) (rs : List ρ) (c' : Cursor) : Prop where
  pos : c'.pos = c.pos + fmt.span rs
  laid : fmt.Laid c'.mem c.pos rs
  frame : ∀ j, j < c.pos ∨ c.pos + fmt.span rs ≤ j → c'.mem j = c.mem j

/-- A builder appends `rs`, or leaves the buffer. -/
structure Builds (build : Cursor → Option Cursor) (rs : List ρ) : Prop where
  fits : ∀ c, c.pos + fmt.span rs ≤ size → ∃ c', build c = some c' ∧ Appended fmt c rs c'
  overflows : ∀ c, size < c.pos + fmt.span rs → ∀ c', build c = some c' → size < c'.pos

theorem Builds.nothing : Builds fmt size some [] where
  fits c _ := ⟨c, rfl, rfl, trivial, fun j _ => rfl⟩
  overflows c hc c' h := by
    cases h
    simpa using hc

/-- A builder that is skipped under a condition appends nothing then. -/
theorem Builds.unless (p : Prop) [Decidable p] {build : Cursor → Option Cursor} {rs : List ρ}
    (h : Builds fmt size build rs) :
    Builds fmt size (fun c => if p then some c else build c) (if p then [] else rs) := by
  by_cases hp : p
  · simp only [hp, if_true]
    exact Builds.nothing fmt size
  · simpa only [hp, if_false] using h

/-- Builders in sequence append their records in sequence. -/
theorem Builds.append {build next : Cursor → Option Cursor} {rs ts : List ρ}
    (hbuild : Builds fmt size build rs) (hnext : Builds fmt size next ts) :
    Builds fmt size (fun c => (build c).bind next) (rs ++ ts) where
  fits c hc := by
    rw [Format.span_append] at hc
    obtain ⟨c₁, h₁, ha₁⟩ := hbuild.fits c (by omega)
    obtain ⟨c₂, h₂, ha₂⟩ := hnext.fits c₁ (by rw [ha₁.pos]; omega)
    have hframe₂ := ha₂.frame
    have hlaid₂ := ha₂.laid
    rw [ha₁.pos] at hframe₂ hlaid₂
    refine ⟨c₂, by simp [h₁, h₂], ?_, ?_, ?_⟩
    · rw [ha₂.pos, ha₁.pos, Format.span_append, Nat.add_assoc]
    · refine fmt.laid_append c₂.mem c.pos rs ts ?_ hlaid₂
      exact fmt.laid_congr c₁.mem c₂.mem c.pos rs ha₁.laid fun j _ hlt =>
        (hframe₂ j (Or.inl hlt)).symm
    · intro j hj
      rw [Format.span_append] at hj
      rw [hframe₂ j (by omega), ha₁.frame j (by omega)]
  overflows c hc c' h := by
    rw [Format.span_append] at hc
    obtain ⟨c₁, h₁, h₂⟩ := Option.bind_eq_some_iff.mp h
    by_cases hfirst : c.pos + fmt.span rs ≤ size
    · obtain ⟨c₁', h₁', ha₁⟩ := hbuild.fits c hfirst
      obtain rfl : c₁' = c₁ := Option.some.inj (h₁'.symm.trans h₁)
      exact hnext.overflows c₁' (by rw [ha₁.pos]; omega) c' h₂
    · have hpast := hbuild.overflows c (by omega) c₁ h₁
      exact hnext.overflows c₁ (by omega) c' h₂

end Builders

end OmapBootUtils.RecordChain
