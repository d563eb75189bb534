import Mathlib.Data.List.Basic
import Mathlib.Data.List.TakeDrop
import Mathlib.Tactic.Ring

/-!
A text cut into pieces of `n` letters with a pad between them. The pads can be put
in letter by letter, at each multiple of `n`; dropping every second block of `n`
letters takes them out again.
-/
namespace OmapBootUtils.PaddedPieces

variable {α : Type*}

/-- The letters from offset `i` on, with the pad before each multiple of `n` but 0. -/
def insertPads (n : ℕ) (pad : List α) : ℕ → List α → List α
  | _, [] => []
  | i, a :: l => (if i % n = 0 ∧ i ≠ 0 then pad else []) ++ a :: insertPads n pad (i + 1) l

/-- The letters from offset `i` on whose offset is below `n` modulo `2 * n`. -/
def keepLow (n : ℕ) : ℕ → List α → List α
  | _, [] => []
  | i, a :: l => if i % (2 * n) < n then a :: keepLow n (i + 1) l else keepLow n (i + 1) l

/-- The pieces of a text: all have `n` letters but the last, which has at most as many. -/
structure Pieces (n : ℕ) (l : List α) (pieces : List (List α)) : Prop where
  joined : pieces.flatten = l
  full : ∀ p ∈ pieces.dropLast, p.length = n
  bounded : ∀ p ∈ pieces, p ≠ [] ∧ p.length ≤ n

section Insert
variable (n : ℕ) (pad : List α)

theorem insertPads_append (i : ℕ) (l m : List α) :
    insertPads n pad i (l ++ m) = insertPads n pad i l ++ insertPads n pad (i + l.length) m := by
  induction l generalizing i with
  | nil => rfl
  | cons a l ih =>
    have hi : i + 1 + l.length = i + (l.length + 1) := by omega
    simp only [List.cons_append, insertPads, ih (i + 1), List.length_cons, hi, List.append_assoc]

/-- No pad is due inside a piece. -/
theorem insertPads_within (i : ℕ) (l : List α) (h : i + l.length ≤ n) :
    insertPads n pad i l = l := by
  induction l generalizing i with
  | nil => rfl
  | cons a l ih =>
    rw [List.length_cons] at h
    have hoff : ¬ (i % n = 0 ∧ i ≠ 0) := by
      rw [Nat.mod_eq_of_lt (by omega)]
      omega
    rw [insertPads, if_neg hoff, ih (i + 1) (by omega), List.nil_append]

theorem insertPads_period (i : ℕ) (hi : i ≠ 0) (l : List α) :
    insertPads n pad (i + n) l = insertPads n pad i l := by
  induction l generalizing i with
  | nil => rfl
  | cons a l ih =>
    have hstart : i + n ≠ 0 := by omega
    simp only [insertPads, Nat.add_mod_right, hi, hstart, ne_eq, not_false_eq_true, and_true,
      Nat.add_right_comm i n 1, ih (i + 1) (Nat.succ_ne_zero i)]

/-- What is left of the first piece, then the others with their pads. -/
theorem insertPads_first (i : ℕ) (hi : i ≤ n) (l : List α) :
    insertPads n pad i l = l.take (n - i) ++ insertPads n pad n (l.drop (n - i)) := by
  have hlen : (l.take (n - i)).length ≤ n - i := List.length_take_le ..
  conv_lhs => rw [← List.take_append_drop (n - i) l]
  rw [insertPads_append, insertPads_within n pad i _ (by omega)]
  by_cases hshort : l.length ≤ n - i
  · rw [List.drop_eq_nil_of_le hshort]
    rfl
  · rw [List.length_take, Nat.min_eq_left (by omega), Nat.add_sub_cancel' hi]

/-- A pad goes before each piece after the first. -/
theorem insertPads_next (hn : 0 < n) (l : List α) (hl : l ≠ []) :
    insertPads n pad n l = pad ++ insertPads n pad 0 l := by
  cases l with
  | nil => exact absurd rfl hl
  | cons a l =>
    have hpad : n % n = 0 ∧ n ≠ 0 := ⟨Nat.mod_self n, by omega⟩
    have hrest : insertPads n pad (n + 1) l = insertPads n pad 1 l := by
      rw [Nat.add_comm n 1]
      exact insertPads_period n pad 1 Nat.one_ne_zero l
    rw [insertPads, if_pos hpad, hrest, insertPads]
    simp

end Insert

theorem insertPads_intercalate (n : ℕ) (pad l : List α) (pieces : List (List α)) (hn : 0 < n)
    (h : Pieces n l pieces) : insertPads n pad 0 l = pad.intercalate pieces := by
  induction pieces generalizing l with
  | nil =>
    obtain rfl : [] = l := h.joined
    rfl
  | cons p pieces ih =>
    cases pieces with
    | nil =>
      obtain rfl : p = l := by simpa using h.joined
      have hbound := (h.bounded p (List.mem_cons_self ..)).2
      rw [insertPads_within n pad 0 p (by omega)]
      simp
    | cons q pieces =>
      have hp : p.length = n := h.full p (by simp)
      have hrest : Pieces n (q :: pieces).flatten (q :: pieces) :=
        ⟨rfl, fun r hr => h.full r (by simp [hr]),
          fun r hr => h.bounded r (List.mem_cons_of_mem _ hr)⟩
      have hq : (q :: pieces).flatten ≠ [] := by
        have hne := (h.bounded q (by simp)).1
        simp [hne]
      rw [← h.joined, List.flatten_cons, insertPads_append,
        insertPads_within n pad 0 p (by omega), Nat.zero_add, hp,
        insertPads_next n pad hn _ hq, ih _ hrest]
      simp

theorem exists_pieces (n : ℕ) (hn : 0 < n) (l : List α) : ∃ pieces, Pieces n l pieces := by
  induction hlen : l.length using Nat.strong_induction_on generalizing l with
  | h len ih =>
    by_cases hshort : l.length ≤ n
    · by_cases hnil : l = []
      · exact ⟨[], hnil ▸ rfl, by simp, by simp⟩
      · exact ⟨[l], by simp, by simp, by simp [hnil, hshort]⟩
    · have htake : (l.take n).length = n := by
        rw [List.length_take]
        omega
      obtain ⟨pieces, hpieces⟩ := ih (l.drop n).length (by rw [List.length_drop]; omega) _ rfl
      have hne : pieces ≠ [] := by
        rintro rfl
        have hdrop : (l.drop n).length = 0 := congrArg List.length hpieces.joined.symm
        rw [List.length_drop] at hdrop
        omega
      refine ⟨l.take n :: pieces, ?_, ?_, ?_⟩
      · rw [List.flatten_cons, hpieces.joined, List.take_append_drop]
      · intro p hp
        rw [List.dropLast_cons_of_ne_nil hne, List.mem_cons] at hp
        rcases hp with rfl | hp
        · exact htake
        · exact hpieces.full p hp
      · intro p hp
        rcases List.mem_cons.mp hp with rfl | hp
        · refine ⟨?_, htake.le⟩
          intro hnil
          rw [hnil] at htake
          exact absurd htake.symm (by simpa using hn.ne')
        · exact hpieces.bounded p hp

/-- The first piece, and the others behind a pad if there are any. -/
theorem insertPads_split (n : ℕ) (pad : List α) (hn : 0 < n) (l : List α) :
    insertPads n pad 0 l = l.take n ++
      if l.length ≤ n then [] else pad ++ insertPads n pad 0 (l.drop n) := by
  rw [insertPads_first n pad 0 (Nat.zero_le n), Nat.sub_zero]
  split
  · next hshort => rw [List.drop_eq_nil_of_le hshort, insertPads]
  · next hlong =>
    rw [insertPads_next n pad hn]
    rw [ne_eq, List.drop_eq_nil_iff]
    exact hlong

/-! ### Taking the pads out -/

section Keep
variable (n : ℕ)

theorem keepLow_append (i : ℕ) (l m : List α) :
    keepLow n i (l ++ m) = keepLow n i l ++ keepLow n (i + l.length) m := by
  induction l generalizing i with
  | nil => rfl
  | cons a l ih =>
    have hi : i + 1 + l.length = i + (l.length + 1) := by omega
    simp only [List.cons_append, keepLow, ih (i + 1), List.length_cons, hi]
    split <;> rfl

theorem keepLow_low (i : ℕ) (l : List α) (h : i + l.length ≤ n) : keepLow n i l = l := by
  induction l generalizing i with
  | nil => rfl
  | cons a l ih =>
    rw [List.length_cons] at h
    have hoff : i % (2 * n) < n := by
      rw [Nat.mod_eq_of_lt (by omega)]
      omega
    rw [keepLow, if_pos hoff, ih (i + 1) (by omega)]

theorem keepLow_high (i : ℕ) (l : List α) (hi : n ≤ i) (h : i + l.length ≤ 2 * n) :
    keepLow n i l = [] := by
  induction l generalizing i with
  | nil => rfl
  | cons a l ih =>
    rw [List.length_cons] at h
    have hoff : ¬ i % (2 * n) < n := by
      rw [Nat.mod_eq_of_lt (by omega)]
      omega
    rw [keepLow, if_neg hoff, ih (i + 1) (by omega) (by omega)]

theorem keepLow_period (i : ℕ) (l : List α) : keepLow n (i + 2 * n) l = keepLow n i l := by
  induction l generalizing i with
  | nil => rfl
  | cons a l ih =>
    simp only [keepLow, Nat.add_mod_right, Nat.add_right_comm i (2 * n) 1, ih (i + 1)]

/-- The text comes back from its padded form. -/
theorem keepLow_insertPads (pad : List α) (hn : 0 < n) (hpad : pad.length = n) (l : List α) :
    keepLow n 0 (insertPads n pad 0 l) = l := by
  induction hlen : l.length using Nat.strong_induction_on generalizing l with
  | h len ih =>
    rw [insertPads_split n pad hn]
    split
    · next hshort =>
      rw [List.append_nil, List.take_of_length_le hshort]
      exact keepLow_low n 0 l (by omega)
    · next hlong =>
      have htake : (l.take n).length = n := by
        rw [List.length_take]
        omega
      have hrest := ih (l.drop n).length (by rw [List.length_drop]; omega) _ rfl
      have hnext := keepLow_period n 0 (insertPads n pad 0 (l.drop n))
      rw [Nat.zero_add, Nat.two_mul] at hnext
      rw [keepLow_append, keepLow_append, keepLow_low n 0 _ (by omega), Nat.zero_add, htake,
        keepLow_high n n pad (le_refl n) (by omega), hpad, hnext, hrest, List.nil_append,
        List.take_append_drop]

end Keep

/-- A piece starts at twice its offset in the text. -/
theorem piece_at (n : ℕ) (pad : List α) (hn : 0 < n) (hpad : pad.length = n) (l : List α)
    (k : ℕ) :
    ((insertPads n pad 0 l).drop (2 * n * k)).take n = (l.drop (n * k)).take n := by
  induction k generalizing l with
  | zero =>
    rw [Nat.mul_zero, Nat.mul_zero, List.drop_zero, List.drop_zero, insertPads_split n pad hn]
    split
    · rw [List.append_nil, List.take_take, Nat.min_self]
    · rw [List.take_append_of_le_length (by rw [List.length_take]; omega), List.take_take,
        Nat.min_self]
  | succ k ih =>
    have hstep : n * (k + 1) = n + n * k := by ring
    have hstep' : 2 * n * (k + 1) = 2 * n + 2 * n * k := by ring
    rw [hstep, hstep', ← List.drop_drop, ← List.drop_drop, insertPads_split n pad hn]
    split
    · next hshort =>
      have hnone : (l.take n).drop (2 * n) = [] := by
        apply List.drop_eq_nil_of_le
        rw [List.length_take]
        omega
      rw [List.append_nil, hnone, List.drop_eq_nil_of_le hshort, List.drop_nil, List.drop_nil]
    · next hlong =>
      have hblocks : (l.take n ++ pad).length = 2 * n := by
        rw [List.length_append, List.length_take, hpad]
        omega
      rw [← List.append_assoc, ← hblocks, List.drop_left, hblocks, ih]

/-! ### Pads counted from a later letter -/

section Shifted
variable (n h : ℕ) (x : α)

/-- The `h` letters from every multiple of `n` on are there and are letters of the pad. -/
def PadLike (l : List α) : Prop :=
  ∀ k, n * k < l.length → n * k + h < l.length ∧ (l.drop (n * k)).take h = List.replicate h x

theorem padLike_iff (l : List α) (hl : l ≠ []) :
    PadLike n h x l ↔
      (h < l.length ∧ l.take h = List.replicate h x) ∧ PadLike n h x (l.drop n) := by
  have hpos : 0 < l.length := List.length_pos_iff.mpr hl
  constructor
  · intro hpad
    refine ⟨?_, ?_⟩
    · simpa using hpad 0 (by simpa using hpos)
    · intro k hk
      have hnext := hpad (k + 1)
      rw [List.length_drop] at hk
      rw [List.drop_drop, List.length_drop]
      rw [Nat.mul_succ, Nat.add_comm (n * k) n] at hnext
      obtain ⟨hlen, htake⟩ := hnext (by omega)
      exact ⟨by omega, htake⟩
  · rintro ⟨⟨hlen, htake⟩, hrest⟩ k hk
    cases k with
    | zero => simpa using ⟨hlen, htake⟩
    | succ k =>
      have hprev := hrest k
      rw [List.length_drop, List.drop_drop] at hprev
      rw [Nat.mul_succ] at hk
      rw [Nat.mul_succ, Nat.add_comm (n * k) n]
      obtain ⟨hlen', htake'⟩ := hprev (by omega)
      exact ⟨by omega, htake'⟩

theorem late_pad_cancel (p q r m s t : List α) (hsize : p.length = q.length) :
    p ++ (r ++ (q ++ (m ++ s))) = q ++ (r ++ (p ++ (m ++ t))) ↔ q = p ∧ s = t := by
  constructor
  · intro heq
    obtain ⟨rfl, hrest⟩ := List.append_inj heq hsize
    exact ⟨rfl, by simpa using hrest⟩
  · rintro ⟨rfl, rfl⟩
    rfl

/-- A pad put in `h` letters late makes the same text only if these letters and the pad
cannot be told apart, and then so for the next pad. -/
theorem insertPads_late_step (hn : 0 < n) (hh : h ≤ n) (l : List α) (hl : l ≠ []) :
    insertPads n (List.replicate n x) n l =
        l.take h ++ insertPads n (List.replicate n x) n (l.drop h) ↔
      (h < l.length ∧ l.take h = List.replicate h x) ∧
        insertPads n (List.replicate n x) n (l.drop n) =
          (l.drop n).take h ++ insertPads n (List.replicate n x) n ((l.drop n).drop h) := by
  have hpad : List.replicate n x = List.replicate h x ++ List.replicate (n - h) x := by
    rw [List.replicate_append_replicate, Nat.add_sub_cancel' hh]
  have hpad' : List.replicate n x = List.replicate (n - h) x ++ List.replicate h x := by
    rw [List.replicate_append_replicate, Nat.sub_add_cancel hh]
  generalize hblock : List.replicate n x = pad at hpad hpad' ⊢
  by_cases hlen : h < l.length
  · have hlater : l.drop h ≠ [] := by
      rw [ne_eq, List.drop_eq_nil_iff]
      omega
    have hfirst : l.take n = l.take h ++ (l.drop h).take (n - h) := by
      rw [← List.take_add, Nat.add_sub_cancel' hh]
    have hsecond : (l.drop h).take n = (l.drop h).take (n - h) ++ (l.drop n).take h := by
      conv_lhs => rw [← Nat.sub_add_cancel hh, List.take_add, List.drop_drop,
        Nat.add_sub_cancel' hh]
    have hsize : (List.replicate h x).length = (l.take h).length := by
      rw [List.length_replicate, List.length_take]
      omega
    have hontime : insertPads n pad n l = List.replicate h x ++ (List.replicate (n - h) x ++
        (l.take h ++ ((l.drop h).take (n - h) ++ insertPads n pad n (l.drop n)))) := by
      rw [insertPads_next n pad hn l hl, insertPads_first n pad 0 (Nat.zero_le n), Nat.sub_zero,
        hfirst, ← List.append_assoc (List.replicate h x), ← hpad, List.append_assoc (l.take h)]
    have hlate : insertPads n pad n (l.drop h) = List.replicate (n - h) x ++
        (List.replicate h x ++ ((l.drop h).take (n - h) ++
          ((l.drop n).take h ++ insertPads n pad n ((l.drop n).drop h)))) := by
      rw [insertPads_next n pad hn _ hlater, insertPads_first n pad 0 (Nat.zero_le n), Nat.sub_zero,
        hsecond, ← List.append_assoc (List.replicate (n - h) x), ← hpad', List.append_assoc,
        List.drop_drop, List.drop_drop, Nat.add_comm h n]
    rw [hontime, hlate, late_pad_cancel _ _ _ _ _ _ hsize]
    simp only [hlen, true_and]
  · have hnone : l.drop h = [] := List.drop_eq_nil_of_le (Nat.not_lt.mp hlen)
    have hall : l.take h = l := List.take_of_length_le (Nat.not_lt.mp hlen)
    have hsize : pad.length = n := by rw [← hblock, List.length_replicate]
    refine iff_of_false ?_ fun hlate => hlen hlate.1.1
    intro heq
    have hlengths := congrArg List.length heq
    rw [hnone, hall, insertPads_next n pad hn l hl, insertPads_within n pad 0 l (by omega)]
      at hlengths
    simp only [insertPads, List.length_append, List.length_nil] at hlengths
    omega

theorem insertPads_late_iff (hn : 0 < n) (hh : h ≤ n) (l : List α) :
    insertPads n (List.replicate n x) n l =
        l.take h ++ insertPads n (List.replicate n x) n (l.drop h) ↔ PadLike n h x l := by
  induction hlen : l.length using Nat.strong_induction_on generalizing l with
  | h len ih =>
    by_cases hl : l = []
    · subst hl
      simp [PadLike, insertPads]
    · have hpos : 0 < l.length := List.length_pos_iff.mpr hl
      rw [insertPads_late_step n h x hn hh l hl, padLike_iff n h x l hl,
        ih (l.drop n).length (by rw [List.length_drop]; omega) _ rfl]

/-- Pads that do not count the letters before the text are where they would be in the
whole exactly if the text has a pad's letters there. -/
theorem insertPads_behind_iff (hn : 0 < n) (hh : h ≤ n) (front l : List α)
    (hfront : front.length = h) :
    front ++ insertPads n (List.replicate n x) 0 l =
        insertPads n (List.replicate n x) 0 (front ++ l) ↔ PadLike n h x (l.drop (n - h)) := by
  have hfirst : l.take n = l.take (n - h) ++ (l.drop (n - h)).take h := by
    rw [← List.take_add, Nat.sub_add_cancel hh]
  have hrest : l.drop n = (l.drop (n - h)).drop h := by
    rw [List.drop_drop, Nat.sub_add_cancel hh]
  rw [insertPads_append, insertPads_within n _ 0 front (by omega), List.append_cancel_left_eq,
    Nat.zero_add, hfront, insertPads_first n _ 0 (Nat.zero_le n), insertPads_first n _ h hh,
    Nat.sub_zero, hfirst, hrest, List.append_assoc, List.append_cancel_left_eq,
    ← insertPads_late_iff n h x hn hh]
  exact eq_comm

end Shifted

end OmapBootUtils.PaddedPieces
