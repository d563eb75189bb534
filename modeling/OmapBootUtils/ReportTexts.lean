import Mathlib.Data.Nat.Digits.Lemmas
import OmapBootUtils.ChSections
import OmapBootUtils.ConfigKeys
import OmapBootUtils.KermitPacket

/-!
The texts of what lcfg reports. A text that names a place names the line and the
column of a character of the file, as shorts; it is kept whole, unless a NUL in an
escape ends it before the place.
-/
namespace OmapBootUtils.ReportTexts

open ConfigHandler LcfgScanner ScannedText LexicalGrammar LcfgParser ConfigKeys GrowingString
open ChSections (bytesOf)
open KermitPacket (charValue)

/-! ### The texts -/

/-- lcfg_token_map. -/
def lcfgTokenMap : TokenType → String
  | .nullToken => "null_token"
  | .identifier => "T_IDENTIFIER"
  | .equals => "\x60='"
  | .string => "T_STRING"
  | .sbracketOpen => "\x60['"
  | .sbracketClose => "\x60]'"
  | .comma => "\x60,'"
  | .braceOpen => "\x60\x7b'"
  | .braceClose => "\x60\x7d'"

/-- The conversion %d. -/
def signedText (z : ℤ) : List UInt8 := if z < 0 then 0x2D :: decimal z.natAbs else decimal z.natAbs

def hexChar (d : ℕ) : UInt8 := if d < 10 then digitChar d else UInt8.ofNat (0x61 + (d - 10))

/-- The conversion %02x. -/
def hexText (z : ℤ) : List UInt8 :=
  let digits := ((Nat.digits 16 (z % 2 ^ 32).toNat).map hexChar).reverse
  List.replicate (2 - digits.length) (digitChar 0) ++ digits

def isPrint (c : UInt8) : Bool := 0x20 ≤ c && c ≤ 0x7E

section Texts
variable (signedChar : Bool) (strerror : ℕ → List UInt8)

/-- What vsnprintf makes of the format and the values of a call of lcfg_error_set. -/
def errorText : LcfgError → List UInt8
  | .openFile errno => bytesOf "open(): " ++ strerror errno
  | .read errno => bytesOf "read(): " ++ strerror errno
  | .readBeyondEof => bytesOf "cannot read beyond eof"
  | .peekBeyondEof => bytesOf "cannot peek beyond eof"
  | .tokenBeyondEof => bytesOf "cannot access tokenstream beyond eof"
  | .inputCharacter c p =>
      bytesOf "parse error: invalid input character \x60" ++ [if isPrint c then c else 0x2E] ++
        bytesOf "' (0x" ++ hexText (charValue signedChar c) ++ bytesOf ") near line " ++
        signedText p.line ++ bytesOf ", col " ++ signedText p.col
  | .stringEscape c p =>
      bytesOf "invalid string escape sequence \x60" ++ [c] ++ bytesOf "' near line " ++
        signedText p.line ++ bytesOf ", col " ++ signedText p.col
  | .hexEscape c p =>
      bytesOf "invalid hex escape sequence \x60" ++ [c] ++ bytesOf "' on line " ++
        signedText p.line ++ bytesOf " column " ++ signedText p.col
  | .prematureEof p =>
      bytesOf "parse error: premature end of file near line " ++ signedText p.line ++
        bytesOf ", col " ++ signedText p.col
  | .invalidToken type p expected =>
      bytesOf "invalid token (" ++ bytesOf (lcfgTokenMap type) ++ bytesOf ") near line " ++
        signedText p.line ++ bytesOf " column " ++ signedText p.col ++ bytesOf ": expected " ++
        bytesOf expected
  | .aborted => bytesOf "configuration value traversal aborted upon user request"

/-- The size of the error of struct lcfg. -/
def errorSize : ℕ := 0xFF

/-- lcfg_error_get after the calls of lcfg_error_set, as a C string. -/
def errorGet : Option LcfgError → List UInt8
  | none => []
  | some e => cText ((errorText signedChar strerror e).take (errorSize - 1))

end Texts

/-! ### Places -/

/-- The line and the column, both from 1, of the character after a text. -/
def place (before : List UInt8) : Position :=
  ⟨short (1 + before.count newline),
    short (1 + (before.reverse.takeWhile (· ≠ newline)).length)⟩

theorem short_succ (z : ℤ) : short (short z + 1) = short (z + 1) := Int.bmod_add_bmod

theorem place_next (before : List UInt8) (c : UInt8) :
    (place before).next c = place (before ++ [c]) := by
  by_cases hc : c = newline
  · have hone : short 1 = 1 := rfl
    simp [place, Position.next, hc, short_succ, add_assoc, hone]
  · simp [place, Position.next, hc, short_succ, add_assoc]

theorem posAfter_start (before : List UInt8) : posAfter ⟨1, 1⟩ before = place before := by
  induction before using List.reverseRecOn with
  | nil => rfl
  | append_singleton before c ih =>
    rw [posAfter_append, ih, ← place_next]
    rfl

/-! ### Places in a file -/

/-- What the parser may say it expected. -/
def expectations : List String :=
  ["identifier", "identifier or \x60\x7d'", "\x60='", "string, \x60[' or \x60\x7b'",
    "string, \x60[', \x60\x7b', \x60,' or \x60]'"]

/-- The error is about a character and its place, or about the end and its place, that are
in the relation. -/
def Reported (P : Option UInt8 → Position → Prop) : LcfgError → Prop
  | .inputCharacter c p => P (some c) p
  | .stringEscape c p => P (some c) p
  | .hexEscape c p => P (some c) p
  | .prematureEof p => P none p
  | .invalidToken _ p expected => (∃ c, P (some c) p) ∧ expected ∈ expectations
  | _ => False

section Stream
variable (P : Option UInt8 → Position → Prop)

def ReportedAll (error : Option LcfgError) : Prop := ∀ e, error = some e → Reported P e

/-- Tokens and errors of a stream are at such places. -/
def StreamPlaces : TokenStream → Prop
  | .done error => ReportedAll P error
  | .failed error => ReportedAll P error
  | .token t next => (∃ c, P (some c) t.pos) ∧ StreamPlaces next

theorem reported_or (raised error : Option LcfgError) (hraised : ReportedAll P raised)
    (herror : ReportedAll P error) : ReportedAll P (raised.or error) := by
  cases raised with
  | none => exact herror
  | some e => exact hraised

theorem feedStart_reported (p : Position) (c : UInt8) (string : List UInt8)
    (hp : P (some c) p) :
    ReportedAll P (feedStart p c string).raised := by
  unfold feedStart
  intro e he
  repeat' split at he
  all_goals simp at he
  rw [← he]
  exact hp

theorem feed_reported (p : Position) (c : UInt8) (r : Reading) (hp : P (some c) p) :
    ReportedAll P (feed p c r).raised := by
  obtain ⟨state, string⟩ := r
  intro e he
  cases state
  case start => exact feedStart_reported P p c string hp e he
  case inEsc =>
    simp only [feed, feedEscape] at he
    repeat' split at he
    all_goals simp at he
    rw [← he]
    exact hp
  all_goals
    simp only [feed, hexRaised] at he
    repeat' split at he
    all_goals simp at he
    all_goals
      rw [← he]
      exact hp

theorem settle_places (p : Position) (fed : Fed) (error : Option LcfgError)
    (next : Reading → Option LcfgError → TokenStream) (hp : ∃ c, P (some c) p)
    (hraised : ReportedAll P fed.raised) (herror : ReportedAll P error)
    (hnext : ∀ r error, ReportedAll P error → StreamPlaces P (next r error)) :
    StreamPlaces P (settle p fed error next) := by
  have hor := reported_or P fed.raised error hraised herror
  unfold settle
  split
  · exact hor
  · split
    · exact hnext _ _ hor
    · exact ⟨hp, hnext _ _ hor⟩

theorem tokens_places (text : List UInt8) (r : Reading) (p : Position) (error : Option LcfgError)
    (hchar : ∀ before c after, text = before ++ c :: after → P (some c) (posAfter p before))
    (hend : P none (posAfter p text)) (herror : ReportedAll P error) :
    StreamPlaces P (tokens text r p error) := by
  induction text generalizing r p error with
  | nil =>
    rw [tokens]
    split
    · exact herror
    · intro e he
      rw [← Option.some.inj he]
      exact hend
  | cons c rest ih =>
    have hp : P (some c) p := hchar [] c rest rfl
    have hnext : ∀ r error, ReportedAll P error → StreamPlaces P (tokens rest r (p.next c) error) :=
      fun r error => ih r (p.next c) error
        (fun before d after hsplit => hchar (c :: before) d after (by rw [hsplit]; rfl)) hend
    rw [tokens]
    split
    · exact settle_places P p _ error _ ⟨c, hp⟩ (feed_reported P p c r hp) herror hnext
    · exact ⟨⟨c, hp⟩,
        settle_places P p _ error _ ⟨c, hp⟩ (feedStart_reported P p c _ hp) herror hnext⟩

theorem accept_reported (q : Option Pda) (p' : Pda) (raised : Option LcfgError)
    (h : accept q = some (p', raised)) : ReportedAll P raised := by
  obtain ⟨-, rfl⟩ := accept_some q p' raised h
  intro e he
  cases he

theorem reject_reported (t : Token) (p p' : Pda) (raised : Option LcfgError) (expected : String)
    (ht : ∃ c, P (some c) t.pos) (hexpected : expected ∈ expectations)
    (h : reject t p expected = some (p', raised)) : ReportedAll P raised := by
  rw [reject, Option.some.injEq, Prod.mk.injEq] at h
  intro e he
  rw [← h.2, Option.some.injEq] at he
  rw [← he]
  exact ⟨ht, hexpected⟩

theorem handle_reported (t : Token) (p p' : Pda) (raised : Option LcfgError)
    (ht : ∃ c, P (some c) t.pos) (h : handle t p = some (p', raised)) : ReportedAll P raised := by
  have hsetting : handleSetting t p = some (p', raised) → ReportedAll P raised := by
    intro h
    unfold handleSetting at h
    split at h
    · exact accept_reported P _ p' raised h
    · split at h
      · exact accept_reported P _ p' raised h
      · refine reject_reported P t p p' raised _ ht ?_ h
        split <;> simp [expectations]
  unfold handle at h
  cases hstate : p.top.s with
  | topLevel =>
    rw [hstate] at h
    exact hsetting h
  | inMap =>
    rw [hstate] at h
    exact hsetting h
  | expEquals =>
    rw [hstate] at h
    simp only [handleEquals] at h
    split at h
    · exact accept_reported P _ p' raised h
    · exact reject_reported P t p p' raised _ ht (by simp [expectations]) h
  | expValue =>
    rw [hstate] at h
    simp only [handleValue] at h
    repeat' split at h
    · exact accept_reported P _ p' raised h
    · exact accept_reported P _ p' raised h
    · exact accept_reported P _ p' raised h
    · exact reject_reported P t p p' raised _ ht (by simp [expectations]) h
  | inList =>
    rw [hstate] at h
    simp only [handleItem] at h
    repeat' split at h
    · exact accept_reported P _ p' raised h
    · exact accept_reported P _ p' raised h
    · exact accept_reported P _ p' raised h
    · exact accept_reported P _ p' raised h
    · exact accept_reported P _ p' raised h
    · exact reject_reported P t p p' raised _ ht (by simp [expectations]) h
  | invalid =>
    rw [hstate] at h
    cases h

theorem failure_places (s : TokenStream) (error : Option LcfgError) (hs : StreamPlaces P s)
    (h : failure s = some error) : ReportedAll P error := by
  cases s with
  | done => cases h
  | failed e =>
    rw [← Option.some.inj h]
    exact hs
  | token => cases h

theorem parseStream_reported (s : TokenStream) (p : Pda) (parsed : Parsed)
    (hs : StreamPlaces P s) (h : parseStream s p = some parsed) : ReportedAll P parsed.error := by
  induction s generalizing p with
  | done error =>
    rw [parseStream, Option.some.injEq] at h
    rw [← h]
    exact hs
  | failed error =>
    rw [parseStream, Option.some.injEq] at h
    rw [← h]
    exact hs
  | token t next ih =>
    rw [parseStream] at h
    cases hfailure : failure next with
    | some error =>
      rw [hfailure, Option.some.injEq] at h
      rw [← h]
      exact failure_places P next error hs.2 hfailure
    | none =>
      rw [hfailure] at h
      obtain ⟨⟨p', raised⟩, hhandle, hrest⟩ := Option.bind_eq_some_iff.mp h
      dsimp only at hrest
      split at hrest
      · rw [Option.some.injEq] at hrest
        rw [← hrest]
        exact handle_reported P t p p' raised hs.1 hhandle
      · exact ih p' hs.2 hrest

end Stream

/-- A character of the text, or its end, and the place. -/
def At (text : List UInt8) : Option UInt8 → Position → Prop
  | some c, p => ∃ before after, text = before ++ c :: after ∧ p = place before
  | none, p => p = place text

/-- What is reported of a file is at a character of it, or at its end. -/
theorem parserRun_reported (reads : List ReadResult) (text : List UInt8)
    (h : delivered reads = some text) (parsed : Parsed)
    (hrun : parserRun (.inr reads) = some parsed) : ReportedAll (At text) parsed.error := by
  rw [parserRun_delivered reads text h, parseText] at hrun
  refine parseStream_reported _ _ .new parsed (tokens_places _ text _ _ none ?_ ?_ ?_) hrun
  · intro before c after hsplit
    exact ⟨before, after, hsplit, posAfter_start before⟩
  · exact posAfter_start text
  · intro e he
    cases he

/-! ### Whole texts -/

/-- So many bytes at most, and no NUL. -/
def Short (n : ℕ) (text : List UInt8) : Prop := text.length ≤ n ∧ (0 : UInt8) ∉ text

instance (n : ℕ) (text : List UInt8) : Decidable (Short n text) :=
  inferInstanceAs (Decidable (_ ∧ _))

theorem Short.append {m n : ℕ} {a b : List UInt8} (ha : Short m a) (hb : Short n b) :
    Short (m + n) (a ++ b) := by
  constructor
  · rw [List.length_append]
    exact Nat.add_le_add ha.1 hb.1
  · simp [ha.2, hb.2]

theorem Short.mono {m n : ℕ} {a : List UInt8} (h : Short m a) (hle : m ≤ n) : Short n a :=
  ⟨h.1.trans hle, h.2⟩

theorem decimal_length_le (i k : ℕ) (hk : 0 < k) (h : i < 10 ^ k) : (decimal i).length ≤ k := by
  unfold decimal
  split
  · exact hk
  · rw [List.length_reverse, List.length_map, Nat.digits_length_le_iff (by decide)]
    exact h

/-- The numbers of a place have a sign and five digits at most. -/
theorem signedText_short (z : ℤ) : Short 6 (signedText (short z)) := by
  have hlow := Int.le_bmod (x := z) (m := 2 ^ 16) (by decide)
  have hhigh := Int.bmod_lt (x := z) (m := 2 ^ 16) (by decide)
  have hsmall : (short z).natAbs < 10 ^ 5 := by
    unfold short
    omega
  have hlength := decimal_length_le (short z).natAbs 5 (by decide) hsmall
  have hzero : (0 : UInt8) ∉ decimal (short z).natAbs := (keyWord_decimal _).2
  unfold signedText
  split
  · exact ⟨by rw [List.length_cons]; omega, by simp [hzero]⟩
  · exact ⟨by omega, hzero⟩

theorem hexText_short (z : ℤ) : Short 8 (hexText z) := by
  have hmod : (z % 2 ^ 32).toNat < 16 ^ 8 := by omega
  have hlength := (Nat.digits_length_le_iff (by decide : 1 < 16) _).mpr hmod
  have hchar : ∀ d < 16, hexChar d ≠ 0 := by decide
  constructor
  · simp only [hexText, List.length_append, List.length_replicate, List.length_reverse,
      List.length_map]
    omega
  · have hfill : (0 : UInt8) ≠ digitChar 0 := by decide
    simp only [hexText, List.mem_append, List.mem_replicate, List.mem_reverse, List.mem_map,
      not_or, not_and, not_exists]
    exact ⟨fun _ => hfill, fun d hd => hchar d (Nat.digits_lt_base (by decide) hd)⟩

theorem lcfgTokenMap_short (type : TokenType) : Short 12 (bytesOf (lcfgTokenMap type)) := by
  cases type <;> decide +kernel

theorem expectations_short : ∀ expected ∈ expectations, Short 40 (bytesOf expected) := by
  decide +kernel

theorem printed_short (c : UInt8) : Short 1 [if isPrint c then c else 0x2E] := by
  revert c
  apply forall_byte
  decide +kernel

/-- The NUL of a %c ends the text. -/
def NulEscape : LcfgError → Prop
  | .stringEscape c _ => c = 0
  | .hexEscape c _ => c = 0
  | _ => False

section Whole
variable (signedChar : Bool) (strerror : ℕ → List UInt8)

theorem at_short (text : List UInt8) (x : Option UInt8) (p : Position) (h : At text x p) :
    ∃ line col, p = ⟨short line, short col⟩ := by
  cases x with
  | none => exact ⟨_, _, h⟩
  | some c =>
    obtain ⟨before, after, -, rfl⟩ := h
    exact ⟨_, _, rfl⟩

theorem errorText_short (text : List UInt8) (e : LcfgError) (h : Reported (At text) e)
    (hnul : ¬ NulEscape e) : Short 254 (errorText signedChar strerror e) := by
  have hcol : Short 6 (bytesOf ", col ") := by decide +kernel
  have hcolumn : Short 8 (bytesOf " column ") := by decide +kernel
  cases e with
  | inputCharacter c p =>
    obtain ⟨line, col, rfl⟩ := at_short text (some c) p h
    have hstart : Short 38 (bytesOf "parse error: invalid input character \x60") := by decide +kernel
    have hhex : Short 5 (bytesOf "' (0x") := by decide +kernel
    have hnear : Short 12 (bytesOf ") near line ") := by decide +kernel
    have hall := ((((((hstart.append (printed_short c)).append hhex).append
      (hexText_short (charValue signedChar c))).append hnear).append (signedText_short line)).append
        hcol).append (signedText_short col)
    exact hall.mono (by decide)
  | stringEscape c p =>
    obtain ⟨line, col, rfl⟩ := at_short text (some c) p h
    have hstart : Short 32 (bytesOf "invalid string escape sequence \x60") := by decide +kernel
    have hchar : Short 1 [c] := ⟨le_rfl, by simpa [NulEscape, eq_comm] using hnul⟩
    have hnear : Short 12 (bytesOf "' near line ") := by decide +kernel
    have hall := ((((hstart.append hchar).append hnear).append (signedText_short line)).append
      hcol).append (signedText_short col)
    exact hall.mono (by decide)
  | hexEscape c p =>
    obtain ⟨line, col, rfl⟩ := at_short text (some c) p h
    have hstart : Short 29 (bytesOf "invalid hex escape sequence \x60") := by decide +kernel
    have hchar : Short 1 [c] := ⟨le_rfl, by simpa [NulEscape, eq_comm] using hnul⟩
    have hon : Short 10 (bytesOf "' on line ") := by decide +kernel
    have hall := ((((hstart.append hchar).append hon).append (signedText_short line)).append
      hcolumn).append (signedText_short col)
    exact hall.mono (by decide)
  | prematureEof p =>
    obtain ⟨line, col, rfl⟩ := at_short text none p h
    have hstart : Short 46 (bytesOf "parse error: premature end of file near line ") := by
      decide +kernel
    exact (((hstart.append (signedText_short line)).append hcol).append
      (signedText_short col)).mono (by decide)
  | invalidToken type p expected =>
    obtain ⟨c, hc⟩ := h.1
    obtain ⟨line, col, rfl⟩ := at_short text (some c) p hc
    have hstart : Short 15 (bytesOf "invalid token (") := by decide +kernel
    have hnear : Short 12 (bytesOf ") near line ") := by decide +kernel
    have hexpected : Short 11 (bytesOf ": expected ") := by decide +kernel
    have hall := ((((((hstart.append (lcfgTokenMap_short type)).append hnear).append
      (signedText_short line)).append hcolumn).append (signedText_short col)).append
        hexpected).append (expectations_short expected h.2)
    exact hall.mono (by decide)
  | _ => exact h.elim

/-- A text that is short is returned as it is, and one with a NUL is not. -/
theorem errorGet_whole_iff (text : List UInt8) (e : LcfgError) (h : Reported (At text) e) :
    errorGet signedChar strerror (some e) = errorText signedChar strerror e ↔ ¬ NulEscape e := by
  constructor
  · intro heq hnul
    have hmem : (0 : UInt8) ∈ errorText signedChar strerror e := by
      cases e with
      | stringEscape c p =>
        obtain rfl : c = 0 := hnul
        simp [errorText]
      | hexEscape c p =>
        obtain rfl : c = 0 := hnul
        simp [errorText]
      | _ => exact hnul.elim
    rw [← heq, errorGet, cText] at hmem
    have hne := List.mem_takeWhile_imp hmem
    simp at hne
  · intro hnul
    obtain ⟨hlength, hzero⟩ := errorText_short signedChar strerror text e h hnul
    rw [errorGet, List.take_of_length_le (by simpa [errorSize] using hlength),
      cText_of_notMem _ hzero]

end Whole

end OmapBootUtils.ReportTexts
