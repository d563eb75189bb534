import OmapBootUtils.ScannedText

/-!
The lexical grammar of a configuration file: blanks and comments, punctuation,
identifiers that end before another character, and strings with escapes. Every
text has one reading by the grammar, to its end or to its first fault, and it is
what the scanner produces, places and errors included.
-/
namespace OmapBootUtils.LexicalGrammar

open LcfgScanner ScannedText

/-! ### Words of the grammar -/

/-- The place after a text. -/
def posAfter (p : Position) (text : List UInt8) : Position := text.foldl Position.next p

theorem posAfter_cons (p : Position) (c : UInt8) (text : List UInt8) :
    posAfter p (c :: text) = posAfter (p.next c) text := rfl

theorem posAfter_append (p : Position) (a b : List UInt8) :
    posAfter p (a ++ b) = posAfter (posAfter p a) b := List.foldl_append ..

/-- A comment of several lines is over at its first star and slash. -/
def Inside (body : List UInt8) : Prop := ¬ [star, slash] <:+: body

/-- What may stand between tokens. -/
inductive Gap : List UInt8 → Prop
  | blank (c : UInt8) (h : isBlank c = true) : Gap [c]
  | oneline (body : List UInt8) (h : newline ∉ body) : Gap (slash :: slash :: (body ++ [newline]))
  | multiline (body : List UInt8) (h : Inside body) :
      Gap (slash :: star :: (body ++ [star, slash]))

/-- A piece of a string: a character, an escape of two, or the escape x with two more,
which need not be digits. -/
inductive Piece where
  | plain (c : UInt8)
  | escape (c b : UInt8)
  | hex (first second : UInt8)
  deriving DecidableEq, Repr

namespace Piece

def Valid : Piece → Prop
  | plain c => c ≠ quote ∧ c ≠ backslash
  | escape c b => escapeChar c = some b
  | hex _ _ => True

instance (x : Piece) : Decidable x.Valid := by
  cases x <;> unfold Valid <;> infer_instance

def text : Piece → List UInt8
  | plain c => [c]
  | escape c _ => [backslash, c]
  | hex first second => [backslash, 0x78, first, second]

def value : Piece → UInt8
  | plain c => c
  | escape _ b => b
  | hex first second => strtoulHex [first, second]

/-- The error text after the piece: a character that is no digit leaves one. -/
def error (p : Position) (e : Option LcfgError) : Piece → Option LcfgError
  | hex first second =>
      let p := posAfter p [backslash, 0x78]
      (hexRaised (p.next first) second).or ((hexRaised p first).or e)
  | _ => e

end Piece

def literalText (pieces : List Piece) : List UInt8 := pieces.flatMap Piece.text

def literalValue (pieces : List Piece) : List UInt8 := pieces.map Piece.value

def literalError (p : Position) (e : Option LcfgError) : List Piece → Option LcfgError
  | [] => e
  | x :: pieces => literalError (posAfter p x.text) (x.error p e) pieces

def Valid (pieces : List Piece) : Prop := ∀ x ∈ pieces, x.Valid

structure IsName (c : UInt8) (name : List UInt8) : Prop where
  first : isAlpha c = true
  rest : ∀ x ∈ name, isNameChar x = true

/-- No token, comment or blank starts with the character. -/
structure Stray (c : UInt8) : Prop where
  blank : isBlank c = false
  punctuation : punctuation c = none
  slash : c ≠ slash
  quote : c ≠ quote
  alpha : isAlpha c = false

/-- A text that ends before its token or comment does. -/
inductive Unfinished : List UInt8 → Prop
  | slash : Unfinished [slash]
  | oneline (body : List UInt8) (h : newline ∉ body) : Unfinished (slash :: slash :: body)
  | multiline (body : List UInt8) (h : Inside body) : Unfinished (slash :: star :: body)
  | identifier (c : UInt8) (name : List UInt8) (h : IsName c name) : Unfinished (c :: name)
  | string (pieces : List Piece) (tail : List UInt8) (h : Valid pieces)
      (htail : tail = [] ∨ tail = [backslash] ∨ tail = [backslash, 0x78] ∨
        ∃ first, tail = [backslash, 0x78, first]) :
      Unfinished (quote :: (literalText pieces ++ tail))

/-- The readings of a text. A token of punctuation still has the string of the last
token that had one. -/
inductive Lexes : List UInt8 → Position → Option LcfgError → List UInt8 → TokenStream → Prop
  | done (last : List UInt8) (p : Position) (e : Option LcfgError) : Lexes last p e [] (.done e)
  | gap (last : List UInt8) (p : Position) (e : Option LcfgError) (gap rest : List UInt8)
      (s : TokenStream) (hgap : Gap gap) (h : Lexes last (posAfter p gap) e rest s) :
      Lexes last p e (gap ++ rest) s
  | punctuation (last : List UInt8) (p : Position) (e : Option LcfgError) (c : UInt8)
      (rest : List UInt8) (type : TokenType) (s : TokenStream) (htype : punctuation c = some type)
      (h : Lexes last (p.next c) e rest s) :
      Lexes last p e (c :: rest) (.token ⟨type, last, p⟩ s)
  | identifier (last : List UInt8) (p : Position) (e : Option LcfgError) (c : UInt8)
      (name : List UInt8) (d : UInt8) (rest : List UInt8) (s : TokenStream) (hname : IsName c name)
      (hend : isNameChar d = false)
      (h : Lexes (c :: name) (posAfter p (c :: name)) e (d :: rest) s) :
      Lexes last p e (c :: (name ++ d :: rest))
        (.token ⟨.identifier, c :: name, posAfter p (c :: name)⟩ s)
  | string (last : List UInt8) (p : Position) (e : Option LcfgError) (pieces : List Piece)
      (rest : List UInt8) (s : TokenStream) (hvalid : Valid pieces)
      (h : Lexes (literalValue pieces) ((posAfter p (quote :: literalText pieces)).next quote)
        (literalError (p.next quote) e pieces) rest s) :
      Lexes last p e (quote :: (literalText pieces ++ quote :: rest))
        (.token ⟨.string, literalValue pieces, posAfter p (quote :: literalText pieces)⟩ s)
  | stray (last : List UInt8) (p : Position) (e : Option LcfgError) (c : UInt8)
      (rest : List UInt8) (h : Stray c) :
      Lexes last p e (c :: rest) (.failed (some (.inputCharacter c p)))
  | comment (last : List UInt8) (p : Position) (e : Option LcfgError) (c : UInt8)
      (rest : List UInt8) (hslash : c ≠ slash) (hstar : c ≠ star) :
      Lexes last p e (slash :: c :: rest) (.failed (some (.inputCharacter c (p.next slash))))
  | escape (last : List UInt8) (p : Position) (e : Option LcfgError) (pieces : List Piece)
      (c : UInt8) (rest : List UInt8) (hvalid : Valid pieces) (hnone : escapeChar c = none)
      (hhex : c ≠ 0x78) :
      Lexes last p e (quote :: (literalText pieces ++ backslash :: c :: rest))
        (.failed (some (.stringEscape c
          (posAfter p (quote :: (literalText pieces ++ [backslash]))))))
  | unfinished (last : List UInt8) (p : Position) (e : Option LcfgError) (text : List UInt8)
      (h : Unfinished text) : Lexes last p e text (.failed (some (.prematureEof (posAfter p text))))

/-! ### Classes of characters -/

theorem forall_byte {P : UInt8 → Prop} (h : ∀ n : Fin 256, P (UInt8.ofFin n)) (c : UInt8) : P c :=
  h c.toFin

theorem alpha_class : ∀ c : UInt8, isAlpha c = true →
    isBlank c = false ∧ punctuation c = none ∧ c ≠ slash ∧ c ≠ quote := by
  apply forall_byte
  decide +kernel

theorem punctuation_class : ∀ c : UInt8, (punctuation c).isSome →
    isBlank c = false ∧ punctuation c ≠ some .nullToken := by
  apply forall_byte
  decide +kernel

theorem feed_blank (c : UInt8) (p : Position) (last : List UInt8) (h : isBlank c = true) :
    feed p c ⟨.start, last⟩ = { reading := ⟨.start, last⟩ } := by
  simp [feed, feedStart, h]

theorem feed_punctuation (c : UInt8) (p : Position) (last : List UInt8) (type : TokenType)
    (h : punctuation c = some type) :
    feed p c ⟨.start, last⟩ = { reading := ⟨.start, last⟩, type := type } := by
  have hblank : isBlank c = false := (punctuation_class c (by simp [h])).1
  simp [feed, feedStart, h, hblank]

theorem feed_slash (p : Position) (last : List UInt8) :
    feed p slash ⟨.start, last⟩ = { reading := ⟨.commStart, last⟩ } := rfl

theorem feed_quote (p : Position) (last : List UInt8) :
    feed p quote ⟨.start, last⟩ = { reading := ⟨.inStr, []⟩ } := rfl

theorem feed_alpha (c : UInt8) (p : Position) (last : List UInt8) (h : isAlpha c = true) :
    feed p c ⟨.start, last⟩ = { reading := ⟨.inIdentifier, [c]⟩ } := by
  obtain ⟨hblank, hpunct, hslash, hquote⟩ := alpha_class c h
  simp [feed, feedStart, h, hblank, hpunct, hslash, hquote]

theorem feed_stray (c : UInt8) (p : Position) (last : List UInt8) (h : Stray c) :
    feed p c ⟨.start, last⟩ =
      { reading := ⟨.invalid, last⟩, raised := some (.inputCharacter c p) } := by
  simp [feed, feedStart, h.blank, h.punctuation, h.slash, h.quote, h.alpha]

section Segments

variable (rest : List UInt8) (string : List UInt8) (p : Position) (e : Option LcfgError)

/-! ### Comments -/

theorem tokens_oneline (body : List UInt8) (h : newline ∉ body) :
    tokens (body ++ rest) ⟨.inOneline, string⟩ p e =
      tokens rest ⟨.inOneline, string⟩ (posAfter p body) e := by
  induction body generalizing p with
  | nil => rfl
  | cons c body ih =>
    have hc : c ≠ newline := fun heq => h (by simp [heq])
    rw [List.cons_append, tokens_move c _ _ p e ⟨.inOneline, string⟩ (by simp [feed, hc]) (by simp)]
    exact ih (p.next c) (fun hmem => h (List.mem_cons_of_mem c hmem))

theorem inside_tail (c : UInt8) (body : List UInt8) (h : Inside (c :: body)) : Inside body :=
  fun hinfix => h (List.infix_cons hinfix)

theorem inside_star (body : List UInt8) (h : Inside (star :: body)) : body.head? ≠ some slash := by
  intro hhead
  obtain ⟨body, rfl⟩ := List.head?_eq_some_iff.mp hhead
  exact h ⟨[], body, rfl⟩

/-- The two states of a comment of several lines agree about its text. -/
theorem tokens_multiline (body : List UInt8) (h : Inside body) :
    ((∃ state, tokens (body ++ rest) ⟨.inMultiline, string⟩ p e =
        tokens rest ⟨state, string⟩ (posAfter p body) e ∧
        (state = .inMultiline ∨ state = .multilineEnd)) ∧
      (body.head? ≠ some slash →
        ∃ state, tokens (body ++ rest) ⟨.multilineEnd, string⟩ p e =
          tokens rest ⟨state, string⟩ (posAfter p body) e ∧
          (state = .inMultiline ∨ state = .multilineEnd))) := by
  induction body generalizing p with
  | nil => exact ⟨⟨_, rfl, Or.inl rfl⟩, fun _ => ⟨_, rfl, Or.inr rfl⟩⟩
  | cons c body ih =>
    obtain ⟨hinside, hend⟩ := ih (p.next c) (inside_tail c body h)
    by_cases hstar : c = star
    · have hnext := hend (inside_star body (hstar ▸ h))
      constructor
      · rw [List.cons_append, tokens_move c _ _ p e ⟨.multilineEnd, string⟩ (by simp [feed, hstar])
          (by simp)]
        exact hnext
      · intro _
        have hslash : star ≠ slash := by decide
        rw [List.cons_append, tokens_move c _ _ p e ⟨.multilineEnd, string⟩
          (by simp [feed, hstar, hslash]) (by simp)]
        exact hnext
    · constructor
      · rw [List.cons_append, tokens_move c _ _ p e ⟨.inMultiline, string⟩ (by simp [feed, hstar])
          (by simp)]
        exact hinside
      · intro hhead
        have hslash : c ≠ slash := fun heq => hhead (by simp [heq])
        rw [List.cons_append, tokens_move c _ _ p e ⟨.inMultiline, string⟩
          (by simp [feed, hstar, hslash]) (by simp)]
        exact hinside

theorem tokens_gap (gap : List UInt8) (h : Gap gap) :
    tokens (gap ++ rest) ⟨.start, string⟩ p e =
      tokens rest ⟨.start, string⟩ (posAfter p gap) e := by
  cases h with
  | blank c h =>
    exact tokens_move c rest _ p e ⟨.start, string⟩ (feed_blank c p string h) (by simp)
  | oneline body h =>
    simp only [List.cons_append, List.append_assoc, posAfter_cons, posAfter_append]
    rw [tokens_move slash _ _ p e ⟨.commStart, string⟩ (feed_slash p string) (by simp),
      tokens_move slash _ _ _ e ⟨.inOneline, string⟩ rfl (by simp), tokens_oneline _ _ _ _ body h,
      List.nil_append, tokens_move newline _ _ _ e ⟨.start, string⟩ rfl (by simp)]
    rfl
  | multiline body h =>
    simp only [List.cons_append, List.append_assoc, posAfter_cons, posAfter_append]
    rw [tokens_move slash _ _ p e ⟨.commStart, string⟩ (feed_slash p string) (by simp),
      tokens_move star _ _ _ e ⟨.inMultiline, string⟩ rfl (by simp)]
    obtain ⟨state, hbody, hstate⟩ :=
      (tokens_multiline (star :: slash :: rest) string ((p.next slash).next star) e body h).1
    have hstar : ∀ q, feed q star ⟨state, string⟩ = { reading := ⟨.multilineEnd, string⟩ } := by
      intro q
      rcases hstate with rfl | rfl <;> rfl
    rw [List.nil_append, hbody, tokens_move star _ _ _ e ⟨.multilineEnd, string⟩ (hstar _) (by simp),
      tokens_move slash _ _ _ e ⟨.start, string⟩ rfl (by simp)]
    rfl

/-! ### Identifiers and strings -/

theorem tokens_name (name : List UInt8) (h : ∀ x ∈ name, isNameChar x = true) :
    tokens (name ++ rest) ⟨.inIdentifier, string⟩ p e =
      tokens rest ⟨.inIdentifier, string ++ name⟩ (posAfter p name) e := by
  induction name generalizing p string with
  | nil => rw [List.append_nil]; rfl
  | cons c name ih =>
    have hc : isNameChar c = true := h c (List.mem_cons_self ..)
    rw [List.cons_append, tokens_move c _ _ p e ⟨.inIdentifier, string ++ [c]⟩ (by simp [feed, hc])
      (by simp), ih (string ++ [c]) (p.next c) (fun x hx => h x (List.mem_cons_of_mem c hx)),
      List.append_assoc]
    rfl

theorem tokens_identifier (c : UInt8) (name : List UInt8) (h : IsName c name) :
    tokens (c :: (name ++ rest)) ⟨.start, string⟩ p e =
      tokens rest ⟨.inIdentifier, c :: name⟩ (posAfter p (c :: name)) e := by
  rw [tokens_move c _ _ p e ⟨.inIdentifier, [c]⟩ (feed_alpha c p string h.first) (by simp),
    tokens_name rest [c] (p.next c) e name h.rest]
  rfl

theorem tokens_piece (x : Piece) (h : x.Valid) :
    tokens (x.text ++ rest) ⟨.inStr, string⟩ p e =
      tokens rest ⟨.inStr, string ++ [x.value]⟩ (posAfter p x.text) (x.error p e) := by
  cases x with
  | plain c =>
    obtain ⟨hquote, hback⟩ := h
    exact tokens_move c rest _ p e ⟨.inStr, string ++ [c]⟩ (by simp [feed, hquote, hback]) (by simp)
  | escape c b =>
    have hc : escapeChar c = some b := h
    simp only [Piece.text, List.cons_append, List.nil_append]
    rw [tokens_move backslash _ _ p e ⟨.inEsc, string⟩ rfl (by simp),
      tokens_move c _ _ _ e ⟨.inStr, string ++ [b]⟩ (by simp [feed, feedEscape, hc]) (by simp)]
    rfl
  | hex first second =>
    simp only [Piece.text, List.cons_append, List.nil_append]
    rw [tokens_move backslash _ _ p e ⟨.inEsc, string⟩ rfl (by simp),
      tokens_move 0x78 _ _ _ e ⟨.escHexExpFirst, string⟩ rfl (by simp),
      tokens_raised first _ _ _ e ⟨.escHexExpSecond first, string⟩ _ rfl (by simp),
      tokens_raised second _ _ _ _ ⟨.inStr, string ++ [strtoulHex [first, second]]⟩ _ rfl (by simp)]
    rfl

theorem tokens_literal (pieces : List Piece) (h : Valid pieces) :
    tokens (literalText pieces ++ rest) ⟨.inStr, string⟩ p e =
      tokens rest ⟨.inStr, string ++ literalValue pieces⟩ (posAfter p (literalText pieces))
        (literalError p e pieces) := by
  induction pieces generalizing string p e with
  | nil =>
    rw [literalValue, List.map_nil, List.append_nil]
    rfl
  | cons x pieces ih =>
    have hx : x.Valid := h x (List.mem_cons_self ..)
    have hrest : Valid pieces := fun y hy => h y (List.mem_cons_of_mem x hy)
    simp only [literalText, literalValue, literalError, List.flatMap_cons, List.map_cons,
      List.append_assoc]
    rw [tokens_piece _ string p e x hx, posAfter_append]
    simpa [literalText, literalValue] using
      ih (string ++ [x.value]) (posAfter p x.text) (x.error p e) hrest

theorem tokens_string (pieces : List Piece) (h : Valid pieces) :
    tokens (quote :: (literalText pieces ++ rest)) ⟨.start, string⟩ p e =
      tokens rest ⟨.inStr, literalValue pieces⟩ (posAfter p (quote :: literalText pieces))
        (literalError (p.next quote) e pieces) := by
  rw [tokens_move quote _ _ p e ⟨.inStr, []⟩ (feed_quote p string) (by simp),
    tokens_literal rest [] (p.next quote) e pieces h]
  rfl

end Segments

/-! ### The scanner and the grammar -/

theorem tokens_unfinished (text last : List UInt8) (p : Position) (e : Option LcfgError)
    (h : Unfinished text) :
    tokens text ⟨.start, last⟩ p e = .failed (some (.prematureEof (posAfter p text))) := by
  cases h with
  | slash => rfl
  | oneline body h =>
    rw [tokens_move slash _ _ p e ⟨.commStart, last⟩ rfl (by simp),
      tokens_move slash _ _ _ e ⟨.inOneline, last⟩ rfl (by simp)]
    have hbody := tokens_oneline [] last ((p.next slash).next slash) e body h
    rw [List.append_nil] at hbody
    rw [hbody]
    rfl
  | multiline body h =>
    rw [tokens_move slash _ _ p e ⟨.commStart, last⟩ rfl (by simp),
      tokens_move star _ _ _ e ⟨.inMultiline, last⟩ rfl (by simp)]
    obtain ⟨state, hbody, hstate⟩ :=
      (tokens_multiline [] last ((p.next slash).next star) e body h).1
    rw [List.append_nil] at hbody
    rw [hbody]
    rcases hstate with rfl | rfl <;> rfl
  | identifier c name h =>
    have hname := tokens_identifier [] last p e c name h
    rw [List.append_nil] at hname
    rw [hname]
    rfl
  | string pieces tail h htail =>
    rw [tokens_string tail last p e pieces h, ← List.cons_append, posAfter_append]
    rcases htail with rfl | rfl | rfl | ⟨first, rfl⟩ <;> rfl

/-- The scanner produces every reading by the grammar. -/
theorem tokens_of_lexes (last : List UInt8) (p : Position) (e : Option LcfgError)
    (text : List UInt8) (s : TokenStream) (h : Lexes last p e text s) :
    tokens text ⟨.start, last⟩ p e = s := by
  induction h with
  | done last p e => rfl
  | gap last p e gap rest s hgap h ih => rw [tokens_gap rest last p e gap hgap, ih]
  | punctuation last p e c rest type s htype h ih =>
    have hnull : type ≠ .nullToken := by
      have hclass := (punctuation_class c (by simp [htype])).2
      rintro rfl
      exact hclass htype
    rw [tokens_emit c rest _ p e type last hnull (feed_punctuation c p last type htype), ih]
  | identifier last p e c name d rest s hname hend h ih =>
    rw [tokens_identifier (d :: rest) last p e c name hname,
      tokens_unconsumed d rest _ _ e (by simp [feed, hend])]
    simp only [feed, hend]
    rw [← ih]
    rfl
  | string last p e pieces rest s hvalid h ih =>
    rw [tokens_string (quote :: rest) last p e pieces hvalid,
      tokens_emit quote rest _ _ _ .string (literalValue pieces) (by simp) rfl, ih]
  | stray last p e c rest h =>
    exact tokens_invalid c rest _ p e last _ (feed_stray c p last h)
  | comment last p e c rest hslash hstar =>
    rw [tokens_move slash _ _ p e ⟨.commStart, last⟩ rfl (by simp)]
    exact tokens_invalid c rest _ _ e last _ (by simp [feed, hslash, hstar])
  | escape last p e pieces c rest hvalid hnone hhex =>
    rw [tokens_string (backslash :: c :: rest) last p e pieces hvalid,
      tokens_move backslash _ _ _ _ ⟨.inEsc, literalValue pieces⟩ rfl (by simp),
      tokens_invalid c rest _ _ _ (literalValue pieces) _ (by simp [feed, feedEscape, hnone, hhex]; rfl),
      ← List.cons_append, posAfter_append]
    rfl
  | unfinished last p e text h => exact tokens_unfinished text last p e h

/-! ### Every text has a reading -/

theorem inside_cons (c : UInt8) (body : List UInt8) (h : Inside body)
    (hhead : c = star → body.head? ≠ some slash) : Inside (c :: body) := by
  intro hinfix
  rcases List.infix_cons_iff.mp hinfix with hprefix | hlater
  · obtain ⟨rest, hrest⟩ := hprefix
    simp only [List.cons_append, List.nil_append, List.cons.injEq] at hrest
    obtain ⟨rfl, rfl⟩ := hrest
    exact hhead rfl rfl
  · exact h hlater

theorem inside_or_split (text : List UInt8) :
    Inside text ∨ ∃ body after, text = body ++ star :: slash :: after ∧ Inside body := by
  have hnil : Inside [] := fun hinfix => by simp at hinfix
  induction text with
  | nil => exact Or.inl hnil
  | cons c text ih =>
    by_cases hclose : c = star ∧ text.head? = some slash
    · obtain ⟨rfl, hhead⟩ := hclose
      obtain ⟨after, rfl⟩ := List.head?_eq_some_iff.mp hhead
      exact Or.inr ⟨[], after, rfl, hnil⟩
    · rcases ih with hinside | ⟨body, after, rfl, hinside⟩
      · exact Or.inl (inside_cons c text hinside (fun hstar hhead => hclose ⟨hstar, hhead⟩))
      · refine Or.inr ⟨c :: body, after, rfl, inside_cons c body hinside ?_⟩
        intro hstar hhead
        obtain ⟨body, rfl⟩ := List.head?_eq_some_iff.mp hhead
        exact hclose ⟨hstar, rfl⟩

/-- Where the pieces of a string end. -/
inductive Stops : List UInt8 → Prop
  | eof : Stops []
  | eofEscape : Stops [backslash]
  | eofFirst : Stops [backslash, 0x78]
  | eofSecond (first : UInt8) : Stops [backslash, 0x78, first]
  | quote (rest : List UInt8) : Stops (quote :: rest)
  | escape (c : UInt8) (rest : List UInt8) (hnone : escapeChar c = none) (hhex : c ≠ 0x78) :
      Stops (backslash :: c :: rest)

theorem literal_split (n : ℕ) (text : List UInt8) (h : text.length ≤ n) :
    ∃ pieces tail, text = literalText pieces ++ tail ∧ Valid pieces ∧ Stops tail := by
  have hnone : Valid [] := fun x hx => by cases hx
  -- a piece in front of a text that has pieces
  have hmore : ∀ (x : Piece) (rest : List UInt8), x.Valid →
      (∃ pieces tail, rest = literalText pieces ++ tail ∧ Valid pieces ∧ Stops tail) →
      ∃ pieces tail, x.text ++ rest = literalText pieces ++ tail ∧ Valid pieces ∧ Stops tail := by
    intro x rest hx hrest
    obtain ⟨pieces, tail, rfl, hvalid, hstops⟩ := hrest
    refine ⟨x :: pieces, tail, by simp [literalText], ?_, hstops⟩
    intro y hy
    rcases List.mem_cons.mp hy with rfl | hy
    · exact hx
    · exact hvalid y hy
  induction n generalizing text with
  | zero =>
    obtain rfl := List.length_eq_zero_iff.mp (Nat.le_zero.mp h)
    exact ⟨[], [], rfl, hnone, .eof⟩
  | succ n ih =>
    cases text with
    | nil => exact ⟨[], [], rfl, hnone, .eof⟩
    | cons c text =>
      rw [List.length_cons] at h
      by_cases hquote : c = quote
      · exact ⟨[], c :: text, rfl, hnone, hquote ▸ .quote text⟩
      · by_cases hback : c = backslash
        · subst hback
          cases text with
          | nil => exact ⟨[], [backslash], rfl, hnone, .eofEscape⟩
          | cons d text =>
            rw [List.length_cons] at h
            cases hd : escapeChar d with
            | some b => exact hmore (.escape d b) text hd (ih text (by omega))
            | none =>
              by_cases hhex : d = 0x78
              · subst hhex
                match text with
                | [] => exact ⟨[], _, rfl, hnone, .eofFirst⟩
                | [first] => exact ⟨[], _, rfl, hnone, .eofSecond first⟩
                | first :: second :: text =>
                  rw [List.length_cons, List.length_cons] at h
                  exact hmore (.hex first second) text trivial (ih text (by omega))
              · exact ⟨[], _, rfl, hnone, .escape d text hd hhex⟩
        · exact hmore (.plain c) text ⟨hquote, hback⟩ (ih text (by omega))

section Readings

variable (n : ℕ) (hshort : ∀ (text last : List UInt8) (p : Position) (e : Option LcfgError),
  text.length ≤ n → ∃ s, Lexes last p e text s)
include hshort

theorem exists_lexes_slash (text last : List UInt8) (p : Position) (e : Option LcfgError)
    (h : text.length ≤ n) : ∃ s, Lexes last p e (slash :: text) s := by
  cases text with
  | nil => exact ⟨_, .unfinished last p e _ .slash⟩
  | cons c text =>
    rw [List.length_cons] at h
    by_cases hslash : c = slash
    · subst hslash
      by_cases hline : newline ∈ text
      · obtain ⟨body, after, rfl, hbody⟩ := List.eq_append_cons_of_mem hline
        rw [List.length_append, List.length_cons] at h
        obtain ⟨s, hs⟩ := hshort after last (posAfter p (slash :: slash :: (body ++ [newline]))) e
          (by omega)
        refine ⟨s, ?_⟩
        simpa using Lexes.gap last p e _ after s (.oneline body hbody) hs
      · exact ⟨_, .unfinished last p e _ (.oneline text hline)⟩
    · by_cases hstar : c = star
      · subst hstar
        rcases inside_or_split text with hinside | ⟨body, after, rfl, hinside⟩
        · exact ⟨_, .unfinished last p e _ (.multiline text hinside)⟩
        · rw [List.length_append, List.length_cons, List.length_cons] at h
          obtain ⟨s, hs⟩ := hshort after last
            (posAfter p (slash :: star :: (body ++ [star, slash]))) e (by omega)
          refine ⟨s, ?_⟩
          simpa using Lexes.gap last p e _ after s (.multiline body hinside) hs
      · exact ⟨_, .comment last p e c text hslash hstar⟩

theorem exists_lexes_quote (text last : List UInt8) (p : Position) (e : Option LcfgError)
    (h : text.length ≤ n) : ∃ s, Lexes last p e (quote :: text) s := by
  obtain ⟨pieces, tail, rfl, hvalid, hstops⟩ := literal_split text.length text le_rfl
  rw [List.length_append] at h
  cases hstops with
  | quote rest =>
    rw [List.length_cons] at h
    obtain ⟨s, hs⟩ := hshort rest (literalValue pieces)
      ((posAfter p (quote :: literalText pieces)).next quote)
      (literalError (p.next quote) e pieces) (by omega)
    exact ⟨_, .string last p e pieces rest s hvalid hs⟩
  | escape c rest hnone hhex => exact ⟨_, .escape last p e pieces c rest hvalid hnone hhex⟩
  | eof => exact ⟨_, .unfinished last p e _ (.string pieces _ hvalid (Or.inl rfl))⟩
  | eofEscape =>
    exact ⟨_, .unfinished last p e _ (.string pieces _ hvalid (Or.inr (Or.inl rfl)))⟩
  | eofFirst =>
    exact ⟨_, .unfinished last p e _ (.string pieces _ hvalid (Or.inr (Or.inr (Or.inl rfl))))⟩
  | eofSecond first =>
    exact ⟨_, .unfinished last p e _
      (.string pieces _ hvalid (Or.inr (Or.inr (Or.inr ⟨first, rfl⟩))))⟩

theorem exists_lexes_alpha (c : UInt8) (text last : List UInt8) (p : Position)
    (e : Option LcfgError) (halpha : isAlpha c = true) (h : text.length ≤ n) :
    ∃ s, Lexes last p e (c :: text) s := by
  have hsplit := List.takeWhile_append_dropWhile (p := isNameChar) (l := text)
  have hname : IsName c (text.takeWhile isNameChar) :=
    ⟨halpha, fun x hx => List.all_eq_true.mp List.all_takeWhile x hx⟩
  cases hend : text.dropWhile isNameChar with
  | nil =>
    rw [hend, List.append_nil] at hsplit
    rw [hsplit] at hname
    exact ⟨_, .unfinished last p e _ (.identifier c text hname)⟩
  | cons d rest =>
    rw [hend] at hsplit
    have hlen := congrArg List.length hsplit
    rw [List.length_append] at hlen
    have hd : isNameChar d = false := by
      have hhead := List.head_dropWhile_not (p := isNameChar) (l := text) (by simp [hend])
      simpa [hend] using hhead
    obtain ⟨s, hs⟩ := hshort (d :: rest) (c :: text.takeWhile isNameChar)
      (posAfter p (c :: text.takeWhile isNameChar)) e (by omega)
    rw [← hsplit]
    exact ⟨_, .identifier last p e c _ d rest s hname hd hs⟩

end Readings

theorem exists_lexes (n : ℕ) (text last : List UInt8) (p : Position) (e : Option LcfgError)
    (h : text.length ≤ n) : ∃ s, Lexes last p e text s := by
  induction n generalizing text last p e with
  | zero =>
    obtain rfl := List.length_eq_zero_iff.mp (Nat.le_zero.mp h)
    exact ⟨_, .done last p e⟩
  | succ n ih =>
    cases text with
    | nil => exact ⟨_, .done last p e⟩
    | cons c text =>
      rw [List.length_cons] at h
      cases hblank : isBlank c with
      | true =>
        obtain ⟨s, hs⟩ := ih text last (posAfter p [c]) e (by omega)
        exact ⟨s, .gap last p e [c] text s (.blank c hblank) hs⟩
      | false =>
        cases hpunct : punctuation c with
        | some type =>
          obtain ⟨s, hs⟩ := ih text last (p.next c) e (by omega)
          exact ⟨_, .punctuation last p e c text type s hpunct hs⟩
        | none =>
          by_cases hslash : c = slash
          · subst hslash
            exact exists_lexes_slash n ih text last p e (by omega)
          · by_cases hquote : c = quote
            · subst hquote
              exact exists_lexes_quote n ih text last p e (by omega)
            · cases halpha : isAlpha c with
              | true => exact exists_lexes_alpha n ih c text last p e halpha (by omega)
              | false => exact ⟨_, .stray last p e c text ⟨hblank, hpunct, hslash, hquote, halpha⟩⟩

/-- The scanner reads a text as the grammar does. -/
theorem lexes_iff (last : List UInt8) (p : Position) (e : Option LcfgError) (text : List UInt8)
    (s : TokenStream) : Lexes last p e text s ↔ tokens text ⟨.start, last⟩ p e = s := by
  constructor
  · exact tokens_of_lexes last p e text s
  · intro h
    obtain ⟨t, ht⟩ := exists_lexes text.length text last p e le_rfl
    rw [← h, tokens_of_lexes last p e text t ht]
    exact ht

/-- a =["x\n" in one block; the text of a token is not cleared by a mark. -/
def itemText : List UInt8 := [0x61, 0x20, 0x3D, 0x5B, 0x22, 0x78, 0x5C, 0x6E, 0x22]

def itemStream : TokenStream :=
  .token ⟨.identifier, [0x61], ⟨1, 2⟩⟩ (.token ⟨.equals, [0x61], ⟨1, 3⟩⟩
    (.token ⟨.sbracketOpen, [0x61], ⟨1, 4⟩⟩ (.token ⟨.string, [0x78, 0x0A], ⟨1, 9⟩⟩ (.done none))))

end OmapBootUtils.LexicalGrammar
