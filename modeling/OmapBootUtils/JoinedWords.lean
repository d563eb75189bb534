import Mathlib.Data.List.Induction
import Mathlib.Data.List.TakeWhile

/-!
Words joined by a separator. A word is added at the end and taken off again;
words that are not empty and have no separator in them are told apart by the
joined text.
-/
namespace OmapBootUtils.JoinedWords

section Joining

variable {α : Type*} (sep : α)

/-- The text with one more word. -/
def push (text word : List α) : List α :=
  if text.isEmpty then word else text ++ sep :: word

def joined (words : List (List α)) : List α := words.foldl (push sep) []

def IsWord (word : List α) : Prop := word ≠ [] ∧ sep ∉ word

@[simp] theorem joined_nil : joined sep [] = [] := rfl

theorem joined_concat (words : List (List α)) (word : List α) :
    joined sep (words ++ [word]) = push sep (joined sep words) word := by
  simp [joined]

@[simp] theorem push_nil (word : List α) : push sep [] word = word := rfl

theorem push_of_ne_nil (text word : List α) (h : text ≠ []) :
    push sep text word = text ++ sep :: word := by
  simp [push, h]

theorem push_ne_nil (text word : List α) (h : word ≠ []) : push sep text word ≠ [] := by
  unfold push
  split
  · exact h
  · simp

theorem joined_eq_nil_iff (words : List (List α)) (h : ∀ w ∈ words, IsWord sep w) :
    joined sep words = [] ↔ words = [] := by
  constructor
  · intro hnil
    rcases List.eq_nil_or_concat words with hempty | ⟨front, word, rfl⟩
    · exact hempty
    · rw [List.concat_eq_append, joined_concat] at hnil
      exact absurd hnil (push_ne_nil sep _ word (h word (by simp)).1)
  · rintro rfl
    rfl

theorem foldl_push (text : List α) (words : List (List α)) (h : text ≠ []) :
    words.foldl (push sep) text = text ++ words.flatMap (sep :: ·) := by
  induction words generalizing text with
  | nil => simp
  | cons w words ih =>
    rw [List.foldl_cons, push_of_ne_nil sep text w h, ih _ (by simp)]
    simp

/-- Words that are not empty are joined as a list of lists is. -/
theorem joined_eq_intercalate (words : List (List α)) (h : ∀ w ∈ words, w ≠ []) :
    joined sep words = [sep].intercalate words := by
  have hrest : ∀ (w : List α) (words : List (List α)),
      [sep].intercalate (w :: words) = w ++ words.flatMap (sep :: ·) := by
    intro w words
    induction words generalizing w with
    | nil => simp
    | cons v words ih =>
      rw [List.intercalate_cons_cons, ih v]
      simp
  cases words with
  | nil => rfl
  | cons w words =>
    rw [joined, List.foldl_cons, push_nil, foldl_push sep w words (h w (List.mem_cons_self ..)),
      hrest]

end Joining

section Cutting

variable {α : Type*} [DecidableEq α] (sep : α)

/-- The text before the last separator, nothing if there is none. -/
def pop (text : List α) : List α := ((text.reverse.dropWhile (· ≠ sep)).drop 1).reverse

instance (word : List α) : Decidable (IsWord sep word) :=
  inferInstanceAs (Decidable (word ≠ [] ∧ sep ∉ word))

def lastWord (text : List α) : List α := (text.reverse.takeWhile (· ≠ sep)).reverse

theorem ne_sep_of_mem_reverse (word : List α) (h : sep ∉ word) :
    ∀ c ∈ word.reverse, decide (c ≠ sep) = true := by
  intro c hc
  have hne : c ≠ sep := fun heq => h (heq ▸ List.mem_reverse.mp hc)
  simpa using hne

theorem pop_append_cons (text word : List α) (h : sep ∉ word) :
    pop sep (text ++ sep :: word) = text := by
  have hsplit : (text ++ sep :: word).reverse = word.reverse ++ sep :: text.reverse := by simp
  unfold pop
  rw [hsplit, List.dropWhile_append_of_pos (ne_sep_of_mem_reverse sep word h)]
  simp

theorem pop_word (word : List α) (h : sep ∉ word) : pop sep word = [] := by
  unfold pop
  rw [List.dropWhile_eq_nil_iff.mpr (ne_sep_of_mem_reverse sep word h)]
  rfl

omit [DecidableEq α] in
theorem exists_last_split (text : List α) (h : sep ∈ text) :
    ∃ front word, text = front ++ sep :: word ∧ sep ∉ word := by
  obtain ⟨after, before, hsplit, hafter⟩ :=
    List.eq_append_cons_of_mem (List.mem_reverse.mpr h)
  refine ⟨before.reverse, after.reverse, ?_, by simpa using hafter⟩
  have heq := congrArg List.reverse hsplit
  simpa using heq

/-- Taking off a word undoes adding it. -/
@[simp] theorem pop_push (text word : List α) (h : sep ∉ word) :
    pop sep (push sep text word) = text := by
  by_cases hnil : text = []
  · rw [hnil, push_nil, pop_word sep word h]
  · rw [push_of_ne_nil sep text word hnil, pop_append_cons sep text word h]

theorem lastWord_push (text word : List α) (h : sep ∉ word) :
    lastWord sep (push sep text word) = word := by
  by_cases hnil : text = []
  · unfold lastWord
    rw [hnil, push_nil, List.takeWhile_eq_self_iff.mpr (ne_sep_of_mem_reverse sep word h),
      List.reverse_reverse]
  · have hsplit : (text ++ sep :: word).reverse = word.reverse ++ sep :: text.reverse := by simp
    unfold lastWord
    rw [push_of_ne_nil sep text word hnil, hsplit,
      List.takeWhile_append_of_pos (ne_sep_of_mem_reverse sep word h)]
    simp

/-- The joined text determines the words. -/
theorem joined_injective (us vs : List (List α)) (hus : ∀ w ∈ us, IsWord sep w)
    (hvs : ∀ w ∈ vs, IsWord sep w) (h : joined sep us = joined sep vs) : us = vs := by
  induction us using List.reverseRecOn generalizing vs with
  | nil => exact ((joined_eq_nil_iff sep vs hvs).mp h.symm).symm
  | append_singleton us u ih =>
    have hu : IsWord sep u := hus u (by simp)
    rcases List.eq_nil_or_concat vs with rfl | ⟨vs, v, rfl⟩
    · rw [joined_concat] at h
      exact absurd h (push_ne_nil sep _ u hu.1)
    · rw [List.concat_eq_append] at hvs h ⊢
      have hv : IsWord sep v := hvs v (by simp)
      rw [joined_concat, joined_concat] at h
      have hlast : u = v := by
        have heq := congrArg (lastWord sep) h
        rwa [lastWord_push sep _ u hu.2, lastWord_push sep _ v hv.2] at heq
      have hfront : joined sep us = joined sep vs := by
        have heq := congrArg (pop sep) h
        rwa [pop_push sep _ u hu.2, pop_push sep _ v hv.2] at heq
      have hsame : us = vs := ih vs (fun w hw => hus w (by simp [hw]))
        (fun w hw => hvs w (by simp [hw])) hfront
      rw [hsame, hlast]

end Cutting

end OmapBootUtils.JoinedWords
