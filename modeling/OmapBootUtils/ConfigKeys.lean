import OmapBootUtils.ConfigGrammar

/-!
The keys of a document. With at most ten items to a list each value has as key
the names and numbers on the way to it, joined by dots. A number whose leading
digits are ten takes the place of its dot and takes a name off the path.
-/
namespace OmapBootUtils.ConfigKeys

open ConfigHandler GrowingString LcfgParser ConfigGrammar JoinedWords

/-! ### Words of a key -/

/-- A name or number of a key. -/
def KeyWord (word : List UInt8) : Prop := IsWord dot word ∧ (0 : UInt8) ∉ word

instance (word : List UInt8) : Decidable (KeyWord word) :=
  inferInstanceAs (Decidable (IsWord dot word ∧ (0 : UInt8) ∉ word))

def KeyWords (words : List (List UInt8)) : Prop := ∀ w ∈ words, KeyWord w

theorem KeyWords.concat {words : List (List UInt8)} {word : List UInt8} (h : KeyWords words)
    (hword : KeyWord word) : KeyWords (words ++ [word]) := by
  intro w hw
  rcases List.mem_append.mp hw with hw | hw
  · exact h w hw
  · rw [List.mem_singleton.mp hw]
    exact hword

theorem digitChar_class (d : ℕ) (h : d < 10) : digitChar d ≠ dot ∧ digitChar d ≠ 0 := by
  have hall : ∀ d < 10, digitChar d ≠ dot ∧ digitChar d ≠ 0 := by decide
  exact hall d h

theorem mem_decimal (i : ℕ) (c : UInt8) (h : c ∈ decimal i) : ∃ d < 10, c = digitChar d := by
  induction i using Nat.strong_induction_on with
  | _ i ih =>
    by_cases hsmall : i < 10
    · rw [decimal_digit i hsmall] at h
      exact ⟨i, hsmall, List.mem_singleton.mp h⟩
    · rw [decimal_step i (by omega)] at h
      rcases List.mem_append.mp h with h | h
      · exact ih (i / 10) (by omega) h
      · exact ⟨i % 10, by omega, List.mem_singleton.mp h⟩

theorem keyWord_decimal (i : ℕ) : KeyWord (decimal i) := by
  refine ⟨⟨List.length_pos_iff.mp (decimal_length_pos i), ?_⟩, ?_⟩
  · intro h
    obtain ⟨d, hd, heq⟩ := mem_decimal i dot h
    exact (digitChar_class d hd).1 heq.symm
  · intro h
    obtain ⟨d, hd, heq⟩ := mem_decimal i 0 h
    exact (digitChar_class d hd).2 heq.symm

theorem zero_notMem_joined (words : List (List UInt8)) (h : KeyWords words) :
    (0 : UInt8) ∉ joined dot words := by
  induction words using List.reverseRecOn with
  | nil => simp
  | append_singleton words w ih =>
    have hw : KeyWord w := h w (by simp)
    have hrest := ih (fun v hv => h v (by simp [hv]))
    have hdot : (0 : UInt8) ≠ dot := by decide
    rw [joined_concat, push_eq_dotted, dotted]
    split
    · simp [hrest, hw.2]
    · simp [hrest, hw.2, hdot]

/-- A key has no NUL before its end. -/
theorem cText_of_notMem (text : List UInt8) (h : (0 : UInt8) ∉ text) : cText text = text := by
  rw [cText, List.takeWhile_eq_self_iff]
  intro c hc
  have hne : c ≠ 0 := fun heq => h (heq ▸ hc)
  simpa using hne

theorem pop_joined (words : List (List UInt8)) (word : List UInt8) (h : KeyWord word) :
    pop dot (joined dot (words ++ [word])) = joined dot words := by
  rw [joined_concat, pop_push dot _ word h.1.2]

theorem pushNumber_joined (words : List (List UInt8)) (i : ℕ) (h : ¬ LeadingTen i) :
    pushNumber (joined dot words) i = some (joined dot (words ++ [decimal i])) := by
  rw [pushNumber_eq, if_neg h, joined_concat]

/-! ### Documents with short lists -/

mutual

/-- The names are words of a key, and no list has more than ten items. -/
def PlainValue : Value → Prop
  | .string _ => True
  | .list items => items.length ≤ 10 ∧ PlainItems items
  | .map settings => PlainSettings settings

def PlainItems : Items → Prop
  | .nil => True
  | .cons v items => PlainValue v ∧ PlainItems items

def PlainSettings : Settings → Prop
  | .nil => True
  | .cons name v settings => KeyWord name ∧ PlainValue v ∧ PlainSettings settings

end

mutual

/-- The names and numbers on the way to each value. -/
def flatValue (words : List (List UInt8)) : Value → List (List (List UInt8) × List UInt8)
  | .string bytes => [(words, bytes)]
  | .list items => flatItems words 0 items
  | .map settings => flatSettings words settings

def flatItems (words : List (List UInt8)) (n : ℕ) :
    Items → List (List (List UInt8) × List UInt8)
  | .nil => []
  | .cons v items => flatValue (words ++ [decimal n]) v ++ flatItems words (n + 1) items

def flatSettings (words : List (List UInt8)) :
    Settings → List (List (List UInt8) × List UInt8)
  | .nil => []
  | .cons name v settings => flatValue (words ++ [name]) v ++ flatSettings words settings

end

def keyed (flat : List (List (List UInt8) × List UInt8)) : List Entry :=
  flat.map fun r => (joined dot r.1, r.2)

theorem not_leadingTen_of_lt (n : ℕ) (h : n < 10) : ¬ LeadingTen n := by
  rw [leadingTen_small n (by omega)]
  omega

mutual

theorem eval_plainValue (words : List (List UInt8)) (word : List UInt8) (v : Value)
    (hwords : KeyWords words) (hword : KeyWord word) (hv : PlainValue v) :
    v.eval (joined dot (words ++ [word])) =
      some (joined dot words, keyed (flatValue (words ++ [word]) v)) :=
  have hall := hwords.concat hword
  match v with
  | .string bytes => by
    rw [Value.eval, pop_joined words word hword,
      cText_of_notMem _ (zero_notMem_joined _ hall)]
    rfl
  | .list items => by
    obtain ⟨hlen, hitems⟩ := hv
    rw [Value.eval, eval_plainItems (words ++ [word]) 0 items hall (by omega) hitems,
      Option.map_some, pop_joined words word hword]
    rfl
  | .map settings => by
    rw [Value.eval, eval_plainSettings (words ++ [word]) settings hall hv, Option.map_some,
      pop_joined words word hword]
    rfl

theorem eval_plainItems (words : List (List UInt8)) (n : ℕ) (items : Items)
    (hwords : KeyWords words) (hlen : n + items.length ≤ 10) (hitems : PlainItems items) :
    items.eval n (joined dot words) = some (joined dot words, keyed (flatItems words n items)) :=
  match items with
  | .nil => rfl
  | .cons v items => by
    have hnext : n + 1 + items.length ≤ 10 := by
      rw [Items.length] at hlen
      omega
    rw [Items.eval, pushNumber_joined words n (not_leadingTen_of_lt n (by omega)),
      Option.bind_eq_bind, Option.bind_some,
      eval_plainValue words (decimal n) v hwords (keyWord_decimal n) hitems.1,
      Option.bind_eq_bind, Option.bind_some]
    simp only [eval_plainItems words (n + 1) items hwords hnext hitems.2]
    simp [keyed, flatItems]

theorem eval_plainSettings (words : List (List UInt8)) (settings : Settings)
    (hwords : KeyWords words) (hsettings : PlainSettings settings) :
    settings.eval (joined dot words) =
      some (joined dot words, keyed (flatSettings words settings)) :=
  match settings with
  | .nil => rfl
  | .cons name v settings => by
    rw [Settings.eval, ← joined_concat,
      eval_plainValue words name v hwords hsettings.1 hsettings.2.1, Option.bind_eq_bind,
      Option.bind_some]
    simp only [eval_plainSettings words settings hwords hsettings.2.2]
    simp [keyed, flatSettings]

end

/-! ### Keys are told apart -/

mutual

theorem keyWords_flatValue (words : List (List UInt8)) (v : Value) (hwords : KeyWords words)
    (hv : PlainValue v) : ∀ r ∈ flatValue words v, KeyWords r.1 :=
  match v with
  | .string bytes => by
    intro r hr
    rw [List.mem_singleton.mp hr]
    exact hwords
  | .list items => keyWords_flatItems words 0 items hwords hv.2
  | .map settings => keyWords_flatSettings words settings hwords hv

theorem keyWords_flatItems (words : List (List UInt8)) (n : ℕ) (items : Items)
    (hwords : KeyWords words) (hitems : PlainItems items) :
    ∀ r ∈ flatItems words n items, KeyWords r.1 :=
  match items with
  | .nil => by
    intro r hr
    cases hr
  | .cons v items => by
    intro r hr
    rcases List.mem_append.mp hr with hr | hr
    · exact keyWords_flatValue _ v (hwords.concat (keyWord_decimal n)) hitems.1 r hr
    · exact keyWords_flatItems words (n + 1) items hwords hitems.2 r hr

theorem keyWords_flatSettings (words : List (List UInt8)) (settings : Settings)
    (hwords : KeyWords words) (hsettings : PlainSettings settings) :
    ∀ r ∈ flatSettings words settings, KeyWords r.1 :=
  match settings with
  | .nil => by
    intro r hr
    cases hr
  | .cons name v settings => by
    intro r hr
    rcases List.mem_append.mp hr with hr | hr
    · exact keyWords_flatValue _ v (hwords.concat hsettings.1) hsettings.2.1 r hr
    · exact keyWords_flatSettings words settings hwords hsettings.2.2 r hr

end

/-! ### Long lists -/

/-- The numbers below n that lose a place. -/
def tens (n : ℕ) : ℕ := (List.range n).countP fun i => decide (LeadingTen i)

theorem tens_succ (n : ℕ) : tens (n + 1) = tens n + if LeadingTen n then 1 else 0 := by
  simp [tens, List.range_succ, List.countP_append, List.countP_cons]

theorem tens_mono (n m : ℕ) : tens n ≤ tens (n + m) := by
  induction m with
  | zero => exact le_rfl
  | succ m ih =>
    rw [← Nat.add_assoc, tens_succ]
    omega

def strings : List (List UInt8) → Items
  | [] => .nil
  | b :: bs => .cons (.string b) (strings bs)

/-- What is left of the words of a list before its element n. -/
def listWords (words : List (List UInt8)) (n : ℕ) : List (List UInt8) :=
  words.take (words.length - tens n)

def elementKey (words : List (List UInt8)) (n : ℕ) : List UInt8 :=
  if LeadingTen n then joined dot (listWords words n) ++ decimal n
  else joined dot (listWords words n ++ [decimal n])

def elements (words : List (List UInt8)) : ℕ → List (List UInt8) → List Entry
  | _, [] => []
  | n, b :: bs => (elementKey words n, b) :: elements words (n + 1) bs

theorem keyWords_listWords (words : List (List UInt8)) (n : ℕ) (h : KeyWords words) :
    KeyWords (listWords words n) := fun w hw => h w (List.mem_of_mem_take hw)

theorem push_append (text word more : List UInt8) :
    push dot text word ++ more = push dot text (word ++ more) := by
  rw [push_eq_dotted, push_eq_dotted, List.append_assoc]

/-- The last word before a number that loses a place. -/
theorem listWords_ten (words : List (List UInt8)) (n : ℕ) (h : LeadingTen n)
    (hroom : tens n < words.length) :
    ∃ word, listWords words n = listWords words (n + 1) ++ [word] ∧ word ∈ words := by
  have hlast : words.length - tens n = words.length - tens (n + 1) + 1 := by
    rw [tens_succ, if_pos h]
    omega
  have hinside : words.length - tens (n + 1) < words.length := by
    rw [tens_succ, if_pos h]
    omega
  refine ⟨words[words.length - tens (n + 1)], ?_, List.getElem_mem hinside⟩
  rw [listWords, listWords, hlast, List.take_add_one, List.getElem?_eq_getElem hinside]
  rfl

/-- One string of a list. -/
theorem eval_element (words : List (List UInt8)) (n : ℕ) (b : List UInt8) (hwords : KeyWords words)
    (hpath : tens n ≤ words.length) :
    ((pushNumber (joined dot (listWords words n)) n).bind fun inside =>
        (Value.string b).eval inside) =
      if tens (n + 1) ≤ words.length then
        some (joined dot (listWords words (n + 1)), [(elementKey words n, b)])
      else none := by
  have hlist := keyWords_listWords words n hwords
  by_cases h : LeadingTen n
  · have hnext : tens (n + 1) = tens n + 1 := by rw [tens_succ, if_pos h]
    by_cases hroom : tens n < words.length
    · obtain ⟨word, hsplit, hword⟩ := listWords_ten words n h hroom
      have hwordKey : KeyWord word := hwords word hword
      have hne : joined dot (listWords words n) ≠ [] := by
        rw [hsplit, joined_concat]
        exact push_ne_nil dot _ word hwordKey.1.1
      have hdot : dot ∉ word ++ decimal n := by
        simp [hwordKey.1.2, (keyWord_decimal n).1.2]
      have hzero : (0 : UInt8) ∉ joined dot (listWords words n) ++ decimal n := by
        simp [zero_notMem_joined _ hlist, (keyWord_decimal n).2]
      rw [pushNumber_eq, if_pos h, if_neg (by simpa using hne), if_pos (by omega), Option.bind_some,
        Value.eval, cText_of_notMem _ hzero, elementKey, if_pos h]
      congr 2
      rw [hsplit, joined_concat, push_append, pop_push dot _ _ hdot]
    · have hnil : listWords words n = [] := by
        rw [listWords, List.take_eq_nil_iff]
        left
        omega
      have hempty : (joined dot ([] : List (List UInt8))).isEmpty = true := rfl
      have hover : ¬ tens (n + 1) ≤ words.length := by omega
      rw [pushNumber_eq, if_pos h, hnil, if_pos hempty, if_neg hover]
      rfl
  · have hnext : tens (n + 1) = tens n := by rw [tens_succ, if_neg h, Nat.add_zero]
    have hsame : listWords words (n + 1) = listWords words n := by rw [listWords, listWords, hnext]
    rw [pushNumber_joined _ n h, Option.bind_some, Value.eval, pop_joined _ _ (keyWord_decimal n),
      cText_of_notMem _ (zero_notMem_joined _ (hlist.concat (keyWord_decimal n))), if_pos (by omega),
      hsame, elementKey, if_neg h]

/-- The strings of a list, from its element n on. -/
theorem eval_strings (words : List (List UInt8)) (n : ℕ) (bs : List (List UInt8))
    (hwords : KeyWords words) (hpath : tens n ≤ words.length) :
    (strings bs).eval n (joined dot (listWords words n)) =
      if tens (n + bs.length) ≤ words.length then
        some (joined dot (listWords words (n + bs.length)), elements words n bs)
      else none := by
  induction bs generalizing n with
  | nil =>
    rw [List.length_nil, Nat.add_zero, if_pos hpath]
    rfl
  | cons b bs ih =>
    have helement := eval_element words n b hwords hpath
    have hmono := tens_mono (n + 1) bs.length
    have hcount : n + (b :: bs).length = n + 1 + bs.length := by
      rw [List.length_cons]
      omega
    rw [strings, Items.eval]
    cases hpush : pushNumber (joined dot (listWords words n)) n with
    | none =>
      rw [hpush, Option.bind_none] at helement
      have hout : ¬ tens (n + 1) ≤ words.length := by
        intro hin
        rw [if_pos hin] at helement
        cases helement
      rw [hcount, if_neg (by omega)]
      rfl
    | some inside =>
      rw [hpush, Option.bind_some] at helement
      simp only [Option.bind_eq_bind, Option.bind_some, helement, hcount]
      by_cases hin : tens (n + 1) ≤ words.length
      · rw [if_pos hin, Option.bind_some]
        simp only [ih (n + 1) hin]
        by_cases hall : tens (n + 1 + bs.length) ≤ words.length
        · simp [hall, elements]
        · simp [hall]
      · rw [if_neg hin, if_neg (by omega)]
        rfl

/-- A list of strings on a path: each number whose leading digits are ten is joined to the
path without a dot and takes its last name away. With more such numbers than names the parser
stores a digit off the path. -/
theorem eval_list_strings (words : List (List UInt8)) (bs : List (List UInt8))
    (hwords : KeyWords words) :
    (Value.list (strings bs)).eval (joined dot words) =
      if tens bs.length ≤ words.length then
        some (pop dot (joined dot (listWords words bs.length)), elements words 0 bs)
      else none := by
  have hstart : listWords words 0 = words := by
    rw [listWords]
    exact List.take_length
  have hstrings := eval_strings words 0 bs hwords (Nat.zero_le _)
  rw [hstart, Nat.zero_add] at hstrings
  rw [Value.eval, hstrings]
  split <;> rfl

/-- On one name a list has its keys up to ten strings, and none beyond a hundred. -/
example : tens 10 = 0 ∧ tens 11 = 1 ∧ tens 100 = 1 ∧ tens 101 = 2 := by decide

end OmapBootUtils.ConfigKeys
