import Mathlib.Data.List.Infix

/-!
Waiting for a word with one index into it. A letter that continues the match
moves the index on; any other letter is dropped and sets the index back to 0. So
what is read before the word falls into failed attempts, each a prefix of the
word with a letter that does not continue it.
-/
namespace OmapBootUtils.ResetMatcher

variable {α : Type} [DecidableEq α] (word : List α)

def advance (i : ℕ) (c : α) : ℕ := if word[i]? = some c then i + 1 else 0

/-- The number of letters read from index `i` on until the word has been matched. -/
def readUntil : ℕ → List α → Option ℕ
  | i, [] => if i < word.length then none else some 0
  | i, c :: stream =>
      if i < word.length then (readUntil (advance word i c) stream).map (· + 1) else some 0

/-- A prefix of the word, and a letter where the word has another one. -/
def FailedAttempt (attempt : List α) : Prop :=
  ∃ u c d v, word = u ++ d :: v ∧ attempt = u ++ [c] ∧ c ≠ d

/-- The word occurs after `pre` and not earlier. -/
structure FirstOccurrence (pre stream : List α) : Prop where
  occurs : pre ++ word <+: stream
  first : ∀ earlier, earlier ++ word <+: stream → pre.length ≤ earlier.length

theorem readUntil_matched (i : ℕ) (stream : List α) (h : word.length ≤ i) :
    readUntil word i stream = some 0 := by
  cases stream with
  | nil => rw [readUntil, if_neg (by omega)]
  | cons c stream => rw [readUntil, if_neg (by omega)]

theorem readUntil_cons (i : ℕ) (c : α) (stream : List α) (h : i < word.length) :
    readUntil word i (c :: stream) = (readUntil word (advance word i c) stream).map (· + 1) := by
  rw [readUntil, if_pos h]

/-- Letters of the word in their places are all matched. -/
theorem readUntil_continue (u v w stream : List α) (h : word = u ++ (v ++ w)) :
    readUntil word u.length (v ++ stream) =
      (readUntil word (u.length + v.length) stream).map (· + v.length) := by
  induction v generalizing u with
  | nil => simp
  | cons c v ih =>
    have hlt : u.length < word.length := by simp [h]
    have hat : word[u.length]? = some c := by simp [h]
    have hnext := ih (u ++ [c]) (by simp [h])
    rw [List.length_append, List.length_singleton] at hnext
    rw [List.cons_append, readUntil_cons word _ _ _ hlt, advance, if_pos hat, hnext,
      Option.map_map, List.length_cons, show u.length + 1 + v.length = u.length + (v.length + 1) by
        omega]
    rfl

theorem readUntil_word (stream : List α) :
    readUntil word 0 (word ++ stream) = some word.length := by
  have h := readUntil_continue word [] word [] stream (by simp)
  rw [List.length_nil, Nat.zero_add] at h
  rw [h, readUntil_matched word _ _ le_rfl]
  simp

/-- A failed attempt is read whole and leaves the index at 0. -/
theorem readUntil_failed (attempt stream : List α) (h : FailedAttempt word attempt) :
    readUntil word 0 (attempt ++ stream) =
      (readUntil word 0 stream).map (· + attempt.length) := by
  obtain ⟨u, c, d, v, hword, rfl, hne⟩ := h
  have hlt : u.length < word.length := by simp [hword]
  have hat : word[u.length]? ≠ some c := by simpa [hword] using Ne.symm hne
  have hprefix := readUntil_continue word [] u (d :: v) (c :: stream) (by simpa using hword)
  rw [List.length_nil, Nat.zero_add] at hprefix
  rw [List.append_assoc, List.singleton_append, hprefix, readUntil_cons word _ _ _ hlt, advance,
    if_neg hat, Option.map_map, List.length_append, List.length_singleton,
    show u.length + 1 = 1 + u.length by omega]
  congr 1
  funext n
  simp [Nat.add_assoc]

/-- A match reads at least what the index says is missing, and no more than there is. -/
theorem readUntil_bounds (i n : ℕ) (stream : List α) (h : readUntil word i stream = some n) :
    word.length ≤ i + n ∧ n ≤ stream.length := by
  induction stream generalizing i n with
  | nil =>
    rw [readUntil] at h
    split at h
    · cases h
    · cases h
      omega
  | cons c stream ih =>
    by_cases hlt : i < word.length
    · rw [readUntil_cons word i c stream hlt, Option.map_eq_some_iff] at h
      obtain ⟨m, hm, rfl⟩ := h
      obtain ⟨hword, hlen⟩ := ih (advance word i c) m hm
      have hadvance : advance word i c ≤ i + 1 := by
        unfold advance
        split <;> omega
      rw [List.length_cons]
      omega
    · rw [readUntil_matched word i _ (by omega)] at h
      cases h
      omega

/-- A stream begins with the word or a failed attempt, or ends inside the word. -/
theorem first_attempt (word stream : List α) :
    word <+: stream ∨ (∃ attempt rest, FailedAttempt word attempt ∧ stream = attempt ++ rest) ∨
      stream <+: word := by
  induction word generalizing stream with
  | nil => exact Or.inl List.nil_prefix
  | cons d word ih =>
    cases stream with
    | nil => exact Or.inr (Or.inr List.nil_prefix)
    | cons c stream =>
      by_cases hc : c = d
      · subst hc
        rcases ih stream with h | ⟨_, rest, ⟨u, e, f, v, rfl, rfl, hne⟩, rfl⟩ | h
        · exact Or.inl ((List.prefix_cons_inj c).mpr h)
        · exact Or.inr (Or.inl ⟨c :: u ++ [e], rest, ⟨c :: u, e, f, v, rfl, rfl, hne⟩, by simp⟩)
        · exact Or.inr (Or.inr ((List.prefix_cons_inj c).mpr h))
      · exact Or.inr (Or.inl ⟨[c], stream, ⟨[], c, d, word, rfl, rfl, hc⟩, rfl⟩)

/-- The matcher stops at the end of an occurrence of the word exactly if the letters
before it fall into failed attempts. -/
theorem readUntil_occurrence_iff (pre post : List α) :
    readUntil word 0 (pre ++ (word ++ post)) = some (pre.length + word.length) ↔
      ∃ attempts : List (List α),
        (∀ a ∈ attempts, FailedAttempt word a) ∧ pre = attempts.flatten := by
  constructor
  · intro h
    induction hlen : pre.length using Nat.strong_induction_on generalizing pre with
    | _ len ih =>
      rcases first_attempt word (pre ++ (word ++ post)) with ⟨tail, htail⟩ |
        ⟨attempt, rest, hfailed, hsplit⟩ | hshort
      · rw [← htail, readUntil_word, Option.some.injEq] at h
        have hnil : pre = [] := List.length_eq_zero_iff.mp (by omega)
        exact ⟨[], by simp, by simpa using hnil⟩
      · -- the attempt ends before the occurrence, since what follows it matches the word
        rw [hsplit, readUntil_failed word attempt rest hfailed, Option.map_eq_some_iff] at h
        obtain ⟨n, hn, hsum⟩ := h
        have hbounds := (readUntil_bounds word 0 n rest hn).1
        obtain ⟨pre', rfl⟩ : attempt <+: pre :=
          List.prefix_of_prefix_length_le (hsplit ▸ List.prefix_append attempt rest)
            (List.prefix_append pre _) (by omega)
        rw [List.append_assoc, List.append_cancel_left_eq] at hsplit
        rw [List.length_append] at hsum hlen
        have hpos : 0 < attempt.length := by
          obtain ⟨u, c, _, _, _, rfl, _⟩ := hfailed
          simp
        obtain ⟨attempts, hattempts, hpre⟩ := ih pre'.length (by omega) pre'
          (by rw [hsplit, hn, Option.some.injEq]; omega) rfl
        exact ⟨attempt :: attempts, by simpa using ⟨hfailed, hattempts⟩, by simp [hpre]⟩
      · have hle := hshort.length_le
        have hbounds := (readUntil_bounds word 0 _ _ h).2
        simp only [List.length_append] at hle hbounds
        have hnil : pre = [] := List.length_eq_zero_iff.mp (by omega)
        exact ⟨[], by simp, by simpa using hnil⟩
  · rintro ⟨attempts, hattempts, rfl⟩
    induction attempts with
    | nil => simpa using readUntil_word word post
    | cons attempt attempts ih =>
      have hrest := ih fun a ha => hattempts a (by simp [ha])
      rw [List.flatten_cons, List.append_assoc,
        readUntil_failed word attempt _ (hattempts attempt (by simp)), hrest, Option.map_some,
        List.length_append]
      congr 1
      omega

/-! ### Runs in parts -/

/-- The index after a stream, if the word is not matched in it. -/
def position (i : ℕ) (stream : List α) : ℕ := stream.foldl (advance word) i

theorem readUntil_append_none (i : ℕ) (s t : List α) (h : readUntil word i s = none) :
    readUntil word i (s ++ t) =
      (readUntil word (position word i s) t).map (· + s.length) := by
  induction s generalizing i with
  | nil => simp [position]
  | cons c s ih =>
    have hlt : i < word.length := by
      by_contra hge
      rw [readUntil_matched word i _ (Nat.not_lt.mp hge)] at h
      cases h
    rw [readUntil_cons word i c s hlt, Option.map_eq_none_iff] at h
    rw [List.cons_append, readUntil_cons word i c _ hlt, ih _ h, Option.map_map]
    rfl

theorem position_lt (i : ℕ) (s : List α) (h : readUntil word i s = none) :
    position word i s < word.length := by
  have hend := readUntil_append_none word i s [] h
  rw [List.append_nil, h] at hend
  have hnone := Option.map_eq_none_iff.mp hend.symm
  rw [readUntil] at hnone
  split at hnone
  · next hlt => exact hlt
  · cases hnone

/-- The index is that of a prefix of the word that ends what has been read; so what is
read to the end of a match ends in the word. -/
theorem readUntil_sound (i n : ℕ) (text stream : List α) (h : readUntil word i stream = some n)
    (htext : word.take i <:+ text) : word <:+ text ++ stream.take n := by
  induction stream generalizing i n text with
  | nil =>
    rw [readUntil] at h
    split at h
    · cases h
    · next hmatched =>
      rw [List.take_of_length_le (Nat.not_lt.mp hmatched)] at htext
      simpa using htext
  | cons c stream ih =>
    by_cases hlt : i < word.length
    · rw [readUntil_cons word i c stream hlt, Option.map_eq_some_iff] at h
      obtain ⟨m, hm, rfl⟩ := h
      have hnext : word.take (advance word i c) <:+ text ++ [c] := by
        rw [advance]
        split
        · next hat =>
          rw [List.take_add_one, hat]
          exact (List.suffix_append_inj_of_length_eq rfl).mpr ⟨htext, rfl⟩
        · rw [List.take_zero]
          exact List.nil_suffix
      have hrest := ih (advance word i c) m (text ++ [c]) hm hnext
      rwa [List.append_assoc, List.singleton_append] at hrest
    · have hmatched := Nat.not_lt.mp hlt
      rw [readUntil_matched word i _ hmatched] at h
      cases h
      rw [List.take_of_length_le hmatched] at htext
      simpa using htext

/-- A match ends with the word, after failed attempts alone. -/
theorem readUntil_some_iff (n : ℕ) (stream : List α) :
    readUntil word 0 stream = some n ↔
      ∃ attempts : List (List α), (∀ a ∈ attempts, FailedAttempt word a) ∧
        attempts.flatten ++ word <+: stream ∧ n = attempts.flatten.length + word.length := by
  constructor
  · intro h
    have hsuffix := readUntil_sound word 0 n [] stream h List.nil_suffix
    obtain ⟨pre, hpre⟩ := hsuffix
    rw [List.nil_append] at hpre
    have hn : n = pre.length + word.length := by
      rw [← List.length_append, hpre, List.length_take]
      have := (readUntil_bounds word 0 n stream h).2
      omega
    have hstream : stream = pre ++ (word ++ stream.drop n) := by
      rw [← List.append_assoc, hpre, List.take_append_drop]
    rw [hstream, hn] at h
    obtain ⟨attempts, hattempts, hflat⟩ := (readUntil_occurrence_iff word pre _).mp h
    refine ⟨attempts, hattempts, ?_, by rw [← hflat, hn]⟩
    rw [← hflat, hpre]
    exact List.take_prefix n stream
  · rintro ⟨attempts, hattempts, ⟨post, rfl⟩, rfl⟩
    rw [List.append_assoc]
    exact (readUntil_occurrence_iff word _ post).mpr ⟨attempts, hattempts, rfl⟩

theorem position_append (i : ℕ) (s t : List α) :
    position word i (s ++ t) = position word (position word i s) t := List.foldl_append

theorem position_continue (u v w : List α) (h : word = u ++ (v ++ w)) :
    position word u.length v = u.length + v.length := by
  induction v generalizing u with
  | nil => rfl
  | cons c v ih =>
    have hat : word[u.length]? = some c := by simp [h]
    have hnext := ih (u ++ [c]) (by simp [h])
    rw [List.length_append, List.length_singleton] at hnext
    rw [position, List.foldl_cons, advance, if_pos hat, ← position, hnext, List.length_cons]
    omega

theorem position_failed (attempt : List α) (h : FailedAttempt word attempt) :
    position word 0 attempt = 0 := by
  obtain ⟨u, c, d, v, hword, rfl, hne⟩ := h
  have hat : word[u.length]? ≠ some c := by simpa [hword] using Ne.symm hne
  have hprefix := position_continue word [] u (d :: v) (by simpa using hword)
  rw [List.length_nil, Nat.zero_add] at hprefix
  rw [position_append, hprefix, position, List.foldl_cons, List.foldl_nil, advance, if_neg hat]

/-- The matcher waits at index 0 exactly after failed attempts. -/
theorem idle_iff (hword : word ≠ []) (stream : List α) :
    (readUntil word 0 stream = none ∧ position word 0 stream = 0) ↔
      ∃ attempts : List (List α),
        (∀ a ∈ attempts, FailedAttempt word a) ∧ stream = attempts.flatten := by
  constructor
  · intro h
    induction hlen : stream.length using Nat.strong_induction_on generalizing stream with
    | _ len ih =>
      obtain ⟨hnone, hindex⟩ := h
      rcases first_attempt word stream with ⟨tail, rfl⟩ | ⟨attempt, rest, hfailed, rfl⟩ |
        ⟨tail, htail⟩
      · rw [readUntil_word] at hnone
        cases hnone
      · have hpos : 0 < attempt.length := by
          obtain ⟨u, c, _, _, _, rfl, _⟩ := hfailed
          simp
        rw [readUntil_failed word attempt rest hfailed, Option.map_eq_none_iff] at hnone
        rw [position_append, position_failed word attempt hfailed] at hindex
        obtain ⟨attempts, hattempts, hrest⟩ := ih rest.length
          (by rw [← hlen, List.length_append]; omega) rest ⟨hnone, hindex⟩ rfl
        exact ⟨attempt :: attempts, by simpa using ⟨hfailed, hattempts⟩, by simp [hrest]⟩
      · have hwhole := position_continue word [] stream tail htail.symm
        rw [List.length_nil, Nat.zero_add, hindex] at hwhole
        exact ⟨[], by simp, by simpa using hwhole.symm⟩
  · rintro ⟨attempts, hattempts, rfl⟩
    induction attempts with
    | nil =>
      have hpos : 0 < word.length := List.length_pos_iff.mpr hword
      exact ⟨by simp [readUntil, hpos], rfl⟩
    | cons attempt attempts ih =>
      have hfailed := hattempts attempt (by simp)
      obtain ⟨hnone, hindex⟩ := ih fun a ha => hattempts a (by simp [ha])
      rw [List.flatten_cons, readUntil_failed word attempt _ hfailed, position_append,
        position_failed word attempt hfailed]
      exact ⟨by rw [hnone]; rfl, hindex⟩

end OmapBootUtils.ResetMatcher
