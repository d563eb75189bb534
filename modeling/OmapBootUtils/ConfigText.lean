import OmapBootUtils.ConfigErrors
import OmapBootUtils.ConfigEval

/-!
Configuration files written from settings. A quote and a backslash in a string
are escaped, every other byte stands for itself; what the parser reads from the
file are the entries of the settings. A list of strings is taken up to number 100,
which finds no room in the path.
-/
namespace OmapBootUtils.ConfigText

open ConfigHandler LcfgScanner ScannedText LcfgParser ConfigGrammar GrowingString LexicalGrammar
  ConfigKeys ConfigEval ConfigErrors JoinedWords

/-! ### Writing -/

/-- The piece that stands for a byte of a string; there is no escape for a backslash. -/
def pieceOf (c : UInt8) : Piece :=
  if c = quote then .escape quote quote
  else if c = backslash then .hex 0x35 0x63
  else .plain c

def writeString (bytes : List UInt8) : List UInt8 :=
  quote :: (literalText (bytes.map pieceOf) ++ [quote])

mutual

def writeValue : Value → List UInt8
  | .string bytes => writeString bytes
  | .list items => 0x5B :: (writeItems items ++ [0x5D])
  | .map settings => 0x7B :: (writeSettings settings ++ [0x7D])

/-- A comma after each item. -/
def writeItems : Items → List UInt8
  | .nil => []
  | .cons v items => writeValue v ++ 0x2C :: writeItems items

/-- A line for each setting. -/
def writeSettings : Settings → List UInt8
  | .nil => []
  | .cons name v settings => name ++ 0x3D :: (writeValue v ++ newline :: writeSettings settings)

end

def isIdentifier : List UInt8 → Bool
  | [] => false
  | c :: name => isAlpha c && name.all isNameChar

mutual

/-- All names are identifiers. -/
def NamedValue : Value → Prop
  | .string _ => True
  | .list items => NamedItems items
  | .map settings => NamedSettings settings

def NamedItems : Items → Prop
  | .nil => True
  | .cons v items => NamedValue v ∧ NamedItems items

def NamedSettings : Settings → Prop
  | .nil => True
  | .cons name v settings => isIdentifier name = true ∧ NamedValue v ∧ NamedSettings settings

end

/-! ### Reading strings back -/

theorem pieceOf_valid (c : UInt8) : (pieceOf c).Valid := by
  unfold pieceOf
  split
  · rfl
  · next hquote =>
    split
    · trivial
    · next hback => exact ⟨hquote, hback⟩

theorem pieceOf_value (c : UInt8) : (pieceOf c).value = c := by
  unfold pieceOf
  split
  · next hquote => exact hquote.symm
  · split
    · next hback =>
      rw [hback]
      rfl
    · rfl

theorem pieceOf_error (c : UInt8) (p : Position) (e : Option LcfgError) :
    (pieceOf c).error p e = e := by
  have hfirst : ∀ q, hexRaised q 0x35 = none := fun q => rfl
  have hsecond : ∀ q, hexRaised q 0x63 = none := fun q => rfl
  unfold pieceOf
  split
  · rfl
  · split
    · simp [Piece.error, hfirst, hsecond]
    · rfl

theorem valid_pieces (bytes : List UInt8) : Valid (bytes.map pieceOf) := by
  intro x hx
  obtain ⟨c, -, rfl⟩ := List.mem_map.mp hx
  exact pieceOf_valid c

theorem literalValue_pieces (bytes : List UInt8) : literalValue (bytes.map pieceOf) = bytes := by
  rw [literalValue, List.map_map]
  have hid : Piece.value ∘ pieceOf = id := funext pieceOf_value
  rw [hid, List.map_id]

theorem literalError_pieces (p : Position) (e : Option LcfgError) (bytes : List UInt8) :
    literalError p e (bytes.map pieceOf) = e := by
  induction bytes generalizing p with
  | nil => rfl
  | cons c bytes ih => rw [List.map_cons, literalError, pieceOf_error, ih]

/-! ### Reading documents back -/

/-- The scanner reads the words of the text as the tokens, and goes on behind them. -/
def Reads (word : List UInt8) (P : List Token → Prop) : Prop :=
  ∀ (rest last : List UInt8) (p : Position) (e : Option LcfgError),
    ∃ ts last', tokens (word ++ rest) ⟨.start, last⟩ p e =
      streamOf ts (tokens rest ⟨.start, last'⟩ (posAfter p word) e) ∧ P ts

theorem reads_string (bytes : List UInt8) :
    Reads (writeString bytes) (SpellsValue (.string bytes)) := by
  intro rest last p e
  refine ⟨[⟨.string, bytes, posAfter p (quote :: literalText (bytes.map pieceOf))⟩], bytes, ?_,
    .string ⟨.string, bytes, _⟩ rfl⟩
  have hword : writeString bytes ++ rest =
      quote :: (literalText (bytes.map pieceOf) ++ quote :: rest) := by simp [writeString]
  rw [hword, tokens_string (quote :: rest) last p e _ (valid_pieces bytes), literalValue_pieces,
    literalError_pieces, tokens_emit quote rest _ _ e .string bytes (by simp) rfl]
  have hpos : posAfter p (writeString bytes) =
      (posAfter p (quote :: literalText (bytes.map pieceOf))).next quote := by
    rw [writeString, ← List.cons_append, posAfter_append]
    rfl
  rw [hpos]
  rfl

theorem Reads.append {u v : List UInt8} {P Q R : List Token → Prop} (hu : Reads u P)
    (hv : Reads v Q) (h : ∀ ts us, P ts → Q us → R (ts ++ us)) : Reads (u ++ v) R := by
  intro rest last p e
  obtain ⟨ts, last', hfirst, hP⟩ := hu (v ++ rest) last p e
  obtain ⟨us, last'', hsecond, hQ⟩ := hv rest last' (posAfter p u) e
  refine ⟨ts ++ us, last'', ?_, h ts us hP hQ⟩
  rw [List.append_assoc, hfirst, hsecond, streamOf_append, posAfter_append]

theorem reads_nil : Reads [] (fun ts => ts = []) := fun _ last _ _ => ⟨[], last, rfl, rfl⟩

theorem reads_newline : Reads [newline] (fun ts => ts = []) := by
  intro rest last p e
  exact ⟨[], last, tokens_gap rest last p e [newline] (.blank newline rfl), rfl⟩

/-- A character of punctuation is a token. -/
theorem reads_mark (c : UInt8) (type : TokenType) (h : punctuation c = some type) :
    Reads [c] (fun ts => ∃ t, ts = [t] ∧ t.type = type) := by
  intro rest last p e
  have hnull : type ≠ .nullToken := by
    have hclass := (punctuation_class c (by simp [h])).2
    rintro rfl
    exact hclass h
  refine ⟨[⟨type, last, p⟩], last, ?_, ⟨type, last, p⟩, rfl, rfl⟩
  exact tokens_emit c rest _ p e type last hnull (feed_punctuation c p last type h)

/-- A name and the equals sign behind it are two tokens. -/
theorem reads_name (name : List UInt8) (h : isIdentifier name = true) :
    Reads (name ++ [0x3D])
      (fun ts => ∃ t e, ts = [t, e] ∧ t.type = .identifier ∧ t.string = name ∧
        e.type = .equals) := by
  intro rest last p e
  cases name with
  | nil => cases h
  | cons c name =>
    obtain ⟨hfirst, hrest⟩ : isAlpha c = true ∧ ∀ x ∈ name, isNameChar x = true := by
      simpa [isIdentifier] using h
    refine ⟨[⟨.identifier, c :: name, posAfter p (c :: name)⟩,
      ⟨.equals, c :: name, posAfter p (c :: name)⟩], c :: name, ?_,
      ⟨.identifier, c :: name, _⟩, ⟨.equals, c :: name, _⟩, rfl, rfl, rfl, rfl⟩
    have hsplit : (c :: name ++ [0x3D]) ++ rest = c :: (name ++ 0x3D :: rest) := by simp
    rw [hsplit, tokens_identifier (0x3D :: rest) last p e c name ⟨hfirst, hrest⟩,
      tokens_unconsumed 0x3D rest _ _ e rfl]
    have hmark := tokens_emit 0x3D rest ⟨.start, c :: name⟩ (posAfter p (c :: name)) e .equals
      (c :: name) (by simp) rfl
    have hpos : posAfter p (c :: name ++ [0x3D]) = (posAfter p (c :: name)).next 0x3D := by
      rw [posAfter_append]
      rfl
    rw [hpos]
    exact congrArg (TokenStream.token _) hmark

theorem nameChar_class : ∀ c : UInt8, isNameChar c = true → c ≠ 0 ∧ c ≠ dot := by
  apply forall_byte
  decide +kernel

/-- An identifier is a word of a key. -/
theorem keyWord_identifier (name : List UInt8) (h : isIdentifier name = true) : KeyWord name := by
  cases name with
  | nil => cases h
  | cons c name =>
    obtain ⟨hfirst, hrest⟩ : isAlpha c = true ∧ ∀ x ∈ name, isNameChar x = true := by
      simpa [isIdentifier] using h
    have hall : ∀ x ∈ c :: name, isNameChar x = true := by
      intro x hx
      rcases List.mem_cons.mp hx with rfl | hx
      · simp [isNameChar, isAlnum, hfirst]
      · exact hrest x hx
    refine ⟨⟨by simp, fun hdot => ?_⟩, fun hzero => ?_⟩
    · exact (nameChar_class _ (hall _ hdot)).2 rfl
    · exact (nameChar_class _ (hall _ hzero)).1 rfl

mutual

theorem reads_value (v : Value) (h : NamedValue v) : Reads (writeValue v) (SpellsValue v) :=
  match v with
  | .string bytes => reads_string bytes
  | .list items => by
    have hbody : Reads (writeItems items ++ [0x5D]) (fun ts => ∃ us c, ts = us ++ [c] ∧
        SpellsItems items us ∧ c.type = .sbracketClose) := by
      apply (reads_items items h).append (reads_mark 0x5D .sbracketClose rfl)
      intro ts us hts hus
      obtain ⟨c, rfl, hc⟩ := hus
      exact ⟨ts, c, rfl, hts, hc⟩
    apply (reads_mark 0x5B .sbracketOpen rfl).append hbody
    intro ts us hts hus
    obtain ⟨o, rfl, ho⟩ := hts
    obtain ⟨ws, c, rfl, hws, hc⟩ := hus
    exact .list o c items ws ho hc hws
  | .map settings => by
    have hbody : Reads (writeSettings settings ++ [0x7D]) (fun ts => ∃ us c, ts = us ++ [c] ∧
        SpellsSettings settings us ∧ c.type = .braceClose) := by
      apply (reads_settings settings h).append (reads_mark 0x7D .braceClose rfl)
      intro ts us hts hus
      obtain ⟨c, rfl, hc⟩ := hus
      exact ⟨ts, c, rfl, hts, hc⟩
    apply (reads_mark 0x7B .braceOpen rfl).append hbody
    intro ts us hts hus
    obtain ⟨o, rfl, ho⟩ := hts
    obtain ⟨ws, c, rfl, hws, hc⟩ := hus
    exact .map o c settings ws ho hc hws

theorem reads_items (items : Items) (h : NamedItems items) :
    Reads (writeItems items) (SpellsItems items) :=
  match items with
  | .nil => by
    intro rest last p e
    exact ⟨[], last, rfl, .nil⟩
  | .cons v items => by
    have hrest : Reads (0x2C :: writeItems items) (SpellsItems items) := by
      apply (reads_mark 0x2C .comma rfl).append (reads_items items h.2)
      intro ts us hts hus
      obtain ⟨t, rfl, ht⟩ := hts
      exact .comma t items us ht hus
    apply (reads_value v h.1).append hrest
    intro ts us hts hus
    exact .cons v items ts us hts hus

theorem reads_settings (settings : Settings) (h : NamedSettings settings) :
    Reads (writeSettings settings) (SpellsSettings settings) :=
  match settings with
  | .nil => by
    intro rest last p e
    exact ⟨[], last, rfl, .nil⟩
  | .cons name v settings => by
    have hrest : Reads (newline :: writeSettings settings) (SpellsSettings settings) := by
      apply reads_newline.append (reads_settings settings h.2.2)
      intro ts us hts hus
      rw [hts]
      exact hus
    have hvalue : Reads (writeValue v ++ newline :: writeSettings settings) (fun ts =>
        ∃ us vs, ts = us ++ vs ∧ SpellsValue v us ∧ SpellsSettings settings vs) := by
      apply (reads_value v h.2.1).append hrest
      intro ts us hts hus
      exact ⟨ts, us, rfl, hts, hus⟩
    have hword : writeSettings (.cons name v settings) =
        (name ++ [0x3D]) ++ (writeValue v ++ newline :: writeSettings settings) := by
      simp [writeSettings]
    rw [hword]
    apply (reads_name name h.1).append hvalue
    intro ts us hts hus
    obtain ⟨t, e, rfl, ht, hname, he⟩ := hts
    obtain ⟨ws, xs, rfl, hws, hxs⟩ := hus
    have hkey := cText_of_notMem name (keyWord_identifier name h.1).2
    have hspell := SpellsSettings.cons t e v settings ws xs ht he hws hxs
    rwa [hname, hkey] at hspell

end

/-- A file that was written from settings has their entries. -/
theorem parse_write (settings : Settings) (h : NamedSettings settings) :
    parseText (writeSettings settings) =
      (settings.eval []).map fun r => ⟨.ok, r.2, none⟩ := by
  obtain ⟨ts, last, htokens, hspell⟩ := reads_settings settings h [] [] ⟨1, 1⟩ none
  rw [List.append_nil] at htokens
  exact parse_document (writeSettings settings) ts settings none
    ((lexes_iff [] ⟨1, 1⟩ none _ _).mpr htokens) hspell

/-- With lists of at most ten items the entries are the values under the names and numbers
on the way to them, in order, whatever blocks the file is read in. -/
theorem parse_write_plain (settings : Settings) (reads : List ReadResult)
    (h : NamedSettings settings) (hplain : PlainSettings settings)
    (hreads : delivered reads = some (writeSettings settings)) :
    parserRun (.inr reads) = some ⟨.ok, keyed (flatSettings [] settings), none⟩ := by
  have heval := eval_plainSettings [] settings (fun w hw => by cases hw) hplain
  rw [joined_nil] at heval
  rw [parserRun_delivered reads _ hreads, parse_write settings h, heval]
  rfl

/-- A string of a quote and a backslash under a name in a map. -/
def escapedSettings : Settings :=
  .cons [0x61] (.map (.cons [0x62] (.string [quote, backslash]) .nil)) .nil

theorem parse_write_plain_escaped :
    parserRun (.inr [.data (writeSettings escapedSettings) (by decide)]) =
      some ⟨.ok, keyed (flatSettings [] escapedSettings), none⟩ :=
  parse_write_plain escapedSettings _ ⟨by decide, ⟨by decide, trivial, trivial⟩, trivial⟩
    ⟨by decide, ⟨by decide, trivial, trivial⟩, trivial⟩ rfl

/-! ### A list of strings -/

theorem namedItems_strings (bs : List (List UInt8)) : NamedItems (strings bs) := by
  induction bs with
  | nil => trivial
  | cons b bs ih => exact ⟨trivial, ih⟩

theorem tens_le_one_iff (n : ℕ) : tens n ≤ 1 ↔ n ≤ 100 := by
  have hfirst : tens 100 = 1 := by decide
  have hsecond : tens 101 = 2 := by decide
  constructor
  · intro h
    by_contra hlarge
    have hmono := tens_mono 101 (n - 101)
    rw [show 101 + (n - 101) = n by omega] at hmono
    omega
  · intro h
    have hmono := tens_mono n (100 - n)
    rw [show n + (100 - n) = 100 by omega] at hmono
    omega

theorem joined_single (name : List UInt8) : joined dot [name] = push dot [] name := by
  rw [← List.nil_append [name], joined_concat, joined_nil]

theorem keyWords_single (name : List UInt8) (h : isIdentifier name = true) : KeyWords [name] := by
  intro w hw
  rw [List.mem_singleton.mp hw]
  exact keyWord_identifier name h

theorem named_list (name : List UInt8) (bs : List (List UInt8)) (h : isIdentifier name = true) :
    NamedSettings (.cons name (.list (strings bs)) .nil) :=
  ⟨h, namedItems_strings bs, trivial⟩

/-- The strings of a list are taken up to the one whose number has no room in the path. -/
def TakenToTen (words : List (List UInt8)) (items : Items) (ts : List Token) : Prop :=
  ∀ (bs : List (List UInt8)) (n : ℕ) (below : List StateElement) (values : List Entry),
    items = strings bs → tens n ≤ words.length → words.length < tens (n + bs.length) →
    ∃ us t vs k, ts = us ++ t :: vs ∧ t.type = .string ∧ LeadingTen (n + k) ∧
      tens (n + k) = words.length ∧
      reached ⟨⟨.inList, n⟩, below, joined dot (listWords words n), values⟩ us =
        some ⟨⟨.inList, n + k⟩, below, [], values ++ elements words n (bs.take k)⟩

theorem takenToTen (words : List (List UInt8)) (hwords : KeyWords words) (items : Items)
    (ts : List Token) (h : SpellsItems items ts) : TakenToTen words items ts := by
  refine @SpellsItems.rec (fun _ _ _ => True) (fun items ts _ => TakenToTen words items ts)
    (fun _ _ _ => True) ?string ?list ?map ?nil ?comma ?cons ?none ?some items ts h
  case string | list | map | none | some => intros; trivial
  case nil =>
    intro bs n below values hbs hpath hover
    cases bs with
    | nil => exact absurd hpath (Nat.not_le.mpr hover)
    | cons b bs => cases hbs
  case comma =>
    intro t items ts ht _ ih bs n below values hbs hpath hover
    obtain ⟨us, u, vs, k, rfl, hu, hten, hroom, hreached⟩ := ih bs n below values hbs hpath hover
    refine ⟨t :: us, u, vs, k, rfl, hu, hten, hroom, ?_⟩
    have hcomma : ∀ path, handle t ⟨⟨.inList, n⟩, below, path, values⟩ =
        some (⟨⟨.inList, n⟩, below, path, values⟩, none) := fun path => by
      simp [handle, handleItem, ht, accept]
    rw [reached, hcomma]
    exact hreached
  case cons =>
    intro v items ts us hv _ _ ih bs n below values hbs hpath hover
    cases bs with
    | nil => cases hbs
    | cons b bs =>
      obtain ⟨rfl, rfl⟩ := Items.cons.inj hbs
      cases hv with
      | string t ht =>
        have helement := eval_element words n t.string hwords hpath
        have hcount : n + (t.string :: bs).length = n + 1 + bs.length := by
          rw [List.length_cons]
          omega
        by_cases hroom : tens (n + 1) ≤ words.length
        · -- the string is taken, and the rest of the list has the number
          rw [if_pos hroom] at helement
          obtain ⟨inside, hpush, hstring⟩ := Option.bind_eq_some_iff.mp helement
          obtain ⟨hpop, hkey⟩ := Prod.mk.inj (Option.some.inj hstring)
          have hhandle : handle t ⟨⟨.inList, n⟩, below, joined dot (listWords words n), values⟩ =
              some (⟨⟨.inList, n + 1⟩, below, joined dot (listWords words (n + 1)),
                values ++ [(elementKey words n, t.string)]⟩, none) := by
            rw [← hpop, ← hkey]
            simp [handle, handleItem, ht, accept, Pda.enterItem, hpush, Pda.addValue]
          obtain ⟨ws, u, vs, k, rfl, hu, hten, hfull, hreached⟩ := ih bs (n + 1) below
            (values ++ [(elementKey words n, t.string)]) rfl hroom (by rwa [← hcount])
          have hnumber : n + 1 + k = n + (k + 1) := by omega
          refine ⟨t :: ws, u, vs, k + 1, rfl, hu, hnumber ▸ hten, hnumber ▸ hfull, ?_⟩
          rw [reached, hhandle]
          simpa [elements, hnumber] using hreached
        · -- this is the string
          have hten : LeadingTen n := by
            by_contra hno
            rw [tens_succ, if_neg hno] at hroom
            exact hroom hpath
          have hfull : tens n = words.length := by
            rw [tens_succ, if_pos hten] at hroom
            omega
          refine ⟨[], t, us, 0, rfl, ht, hten, hfull, ?_⟩
          rw [listWords, hfull, Nat.sub_self, List.take_zero, joined_nil]
          simp [reached, elements]

/-- The parser has taken the first hundred strings, and number 100 finds an empty path. -/
def StopsAtHundred (name : List UInt8) (bs : List (List UInt8)) (text : List UInt8) : Prop :=
  ∃ us t vs q, Lexes [] ⟨1, 1⟩ none text (streamOf (us ++ t :: vs) (.done none)) ∧
    reached .new us = some q ∧ LeavesPath q t ∧ q.top.listCounter = 100 ∧ q.path = [] ∧
    q.values = elements [name] 0 (bs.take 100)

theorem stopsAtHundred (name : List UInt8) (bs : List (List UInt8)) (h : isIdentifier name = true)
    (hlong : 100 < bs.length) :
    StopsAtHundred name bs (writeSettings (.cons name (.list (strings bs)) .nil)) := by
  obtain ⟨ts, last, htokens, hspell⟩ := reads_settings _ (named_list name bs h) [] [] ⟨1, 1⟩ none
  rw [List.append_nil] at htokens
  generalize hsettings : Settings.cons name (.list (strings bs)) .nil = settings at hspell
  cases hspell with
  | nil => cases hsettings
  | cons i e v settings ts us hi he hv hrest =>
    obtain ⟨hname, hlist, -⟩ := Settings.cons.inj hsettings
    subst hlist
    cases hv with
    | list o c items ts ho hc hitems =>
      have hover : [name].length < tens (0 + bs.length) := by
        have hmany := (tens_le_one_iff bs.length).not.mpr (by omega)
        rw [List.length_singleton, Nat.zero_add]
        omega
      obtain ⟨ws, t, vs, k, rfl, ht, hten, hfull, hreached⟩ := takenToTen [name]
        (keyWords_single name h) _ ts hitems bs 0 [⟨.topLevel, 0⟩] [] rfl (Nat.zero_le _) hover
      rw [Nat.zero_add] at hten hfull hreached
      have hnumber : k = 100 := by
        have hle := (tens_le_one_iff k).mp hfull.le
        have hgt := (tens_le_one_iff (k + 1)).not.mp (by
          rw [tens_succ, if_pos hten, hfull]
          simp)
        omega
      subst hnumber
      refine ⟨i :: e :: o :: ws, t, vs ++ [c] ++ us,
        ⟨⟨.inList, 100⟩, [⟨.topLevel, 0⟩], [], elements [name] 0 (bs.take 100)⟩, ?_, ?_,
        ⟨rfl, Or.inl ht, ?_⟩, rfl, rfl, rfl⟩
      · have hword : i :: e :: ((o :: (ws ++ t :: vs ++ [c])) ++ us) =
            i :: e :: o :: ws ++ t :: (vs ++ [c] ++ us) := by simp
        rw [lexes_iff, ← hsettings, htokens, hword]
        rfl
      · rw [List.nil_append] at hreached
        rw [← hreached]
        have hstart : listWords [name] 0 = [name] := rfl
        rw [hstart, joined_single, hname]
        simp [reached, Pda.new, handle, handleSetting, handleEquals, handleValue, hi, he, ho,
          accept, Pda.pushState, Pda.setState]
      · rw [pushNumber_eq, if_pos hten]
        rfl

/-- A list of strings under a name. Its number 10 is joined without a dot and takes the name
off the path with it; number 100 finds an empty path, and its first digit is stored outside
the block of the path. -/
theorem parse_list (name : List UInt8) (bs : List (List UInt8)) (reads : List ReadResult)
    (h : isIdentifier name = true)
    (hreads : delivered reads = some (writeSettings (.cons name (.list (strings bs)) .nil))) :
    (bs.length ≤ 100 → parserRun (.inr reads) = some ⟨.ok, elements [name] 0 bs, none⟩) ∧
      (100 < bs.length → parserRun (.inr reads) = none ∧
        StopsAtHundred name bs (writeSettings (.cons name (.list (strings bs)) .nil))) := by
  have hlist := eval_list_strings [name] bs (keyWords_single name h)
  rw [joined_single, List.length_singleton] at hlist
  rw [parserRun_delivered reads _ hreads, parse_write _ (named_list name bs h),
    Settings.eval, hlist]
  simp only [tens_le_one_iff]
  constructor
  · intro hshort
    rw [if_pos hshort]
    simp [Settings.eval]
  · intro hlong
    rw [if_neg (by omega)]
    exact ⟨rfl, stopsAtHundred name bs h hlong⟩

/-- A list of this many strings under the name a. -/
def listText (n : ℕ) : List UInt8 :=
  writeSettings (.cons [0x61] (.list (strings (List.replicate n [0x78]))) .nil)

set_option maxRecDepth 4000 in
/-- A list of twelve strings in one block, and one of 101 in two. -/
theorem parse_list_replicate :
    parserRun (.inr [.data (listText 12) (by decide)]) =
        some ⟨.ok, elements [[0x61]] 0 (List.replicate 12 [0x78]), none⟩ ∧
      parserRun (.inr [.data ((listText 101).take bufferSize) (by decide),
        .data ((listText 101).drop bufferSize) (by decide)]) = none ∧
      StopsAtHundred [0x61] (List.replicate 101 [0x78]) (listText 101) :=
  ⟨(parse_list [0x61] (List.replicate 12 [0x78]) _ (by decide) rfl).1 (by decide),
    (parse_list [0x61] (List.replicate 101 [0x78]) _ (by decide) rfl).2 (by decide)⟩

end OmapBootUtils.ConfigText
