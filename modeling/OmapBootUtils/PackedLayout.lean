import Mathlib.Algebra.GroupWithZero.Nat
import Mathlib.Data.List.Basic

/-!
Layouts of packed records: fields in order with their widths in bytes. Offsets
and sizes are computed from the list, so no hand-written offset has to agree
with it, and a field of a record lies inside it.
-/
namespace OmapBootUtils.PackedLayout

structure Field where
  name : String
  width : ℕ
  deriving DecidableEq, Repr

abbrev Layout := List Field

namespace Layout

def size (l : Layout) : ℕ := (l.map Field.width).sum

/-- The bytes before the field of that name. -/
def offset : Layout → String → ℕ
  | [], _ => 0
  | f :: l, name => if f.name = name then 0 else f.width + offset l name

def Distinct (l : Layout) : Prop := (l.map Field.name).Nodup

instance (l : Layout) : Decidable l.Distinct := by
  unfold Distinct
  infer_instance

@[simp] theorem size_cons (f : Field) (l : Layout) : size (f :: l) = f.width + size l := by
  simp [size]

/-- A field ends inside its record. -/
theorem offset_add_width_le (l : Layout) (h : l.Distinct) (f : Field) (hf : f ∈ l) :
    l.offset f.name + f.width ≤ l.size := by
  induction l with
  | nil => simp at hf
  | cons g l ih =>
    rw [Distinct, List.map_cons, List.nodup_cons] at h
    rw [size_cons, offset]
    rcases List.mem_cons.mp hf with rfl | hf
    · simp
    · have hne : g.name ≠ f.name := by
        intro heq
        exact h.1 (heq ▸ List.mem_map_of_mem hf)
      have hrest := ih h.2 hf
      rw [if_neg hne]
      omega

/-- Two fields of a record do not overlap. -/
theorem fields_apart (l : Layout) (f g : Field) (hf : f ∈ l) (hg : g ∈ l)
    (hl : l.Distinct) (hne : f.name ≠ g.name) :
    l.offset f.name + f.width ≤ l.offset g.name ∨ l.offset g.name + g.width ≤ l.offset f.name := by
  induction l with
  | nil => simp at hf
  | cons e l ih =>
    rw [Distinct, List.map_cons, List.nodup_cons] at hl
    have hother : ∀ d ∈ l, e.name ≠ d.name := fun d hd heq =>
      hl.1 (heq ▸ List.mem_map_of_mem hd)
    rw [offset, offset]
    rcases List.mem_cons.mp hf with rfl | hf'
    · rcases List.mem_cons.mp hg with rfl | hg'
      · exact absurd rfl hne
      · rw [if_pos rfl, if_neg (hother g hg')]
        omega
    · rcases List.mem_cons.mp hg with rfl | hg'
      · rw [if_neg (hother f hf'), if_pos rfl]
        omega
      · have hrest := ih hf' hg' hl.2
        rw [if_neg (hother f hf'), if_neg (hother g hg')]
        omega

end Layout

end OmapBootUtils.PackedLayout
