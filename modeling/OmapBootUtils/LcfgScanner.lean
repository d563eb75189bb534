import Mathlib.Data.Int.Init
import OmapBootUtils.ConfigHandler

/-!
The scanner of lcfg. The file is read in blocks of 255 bytes; a state machine
over the characters prepares one token ahead, and a token carries the place of
its last character. The scanner over the blocks and the one over the whole text
produce the same tokens and end in the same way.
-/
namespace OmapBootUtils.LcfgScanner

open ConfigHandler

/-! ### Tokens -/

inductive TokenType where
  | nullToken
  | identifier
  | equals
  | string
  | sbracketOpen
  | sbracketClose
  | comma
  | braceOpen
  | braceClose
  deriving DecidableEq, Repr

/-- The value of a short that a number is assigned to. -/
def short (z : ℤ) : ℤ := z.bmod (2 ^ 16)

structure Position where
  line : ℤ
  col : ℤ
  deriving DecidableEq, Repr

def newline : UInt8 := 0x0A

/-- The place after a character. -/
def Position.next (p : Position) (c : UInt8) : Position :=
  if c = newline then ⟨short (p.line + 1), 1⟩ else ⟨p.line, short (p.col + 1)⟩

structure Token where
  type : TokenType
  string : List UInt8
  pos : Position
  deriving DecidableEq, Repr

/-- The texts lcfg_error_set is called with, and what is put into them. -/
inductive LcfgError where
  | openFile (errno : ℕ)
  | read (errno : ℕ)
  | readBeyondEof
  | peekBeyondEof
  | tokenBeyondEof
  | inputCharacter (c : UInt8) (p : Position)
  | stringEscape (c : UInt8) (p : Position)
  | hexEscape (c : UInt8) (p : Position)
  | prematureEof (p : Position)
  | invalidToken (type : TokenType) (p : Position) (expected : String)
  | aborted
  deriving DecidableEq, Repr

/-! ### The state machine -/

/-- The states of the scanner; hex[0] lives in the state that reads hex[1]. -/
inductive ScannerState where
  | start
  | commStart
  | inOneline
  | inMultiline
  | multilineEnd
  | inIdentifier
  | inStr
  | inEsc
  | escHexExpFirst
  | escHexExpSecond (hex : UInt8)
  | invalid
  deriving DecidableEq, Repr

def isAlpha (c : UInt8) : Bool := (0x41 ≤ c && c ≤ 0x5A) || (0x61 ≤ c && c ≤ 0x7A)

def isDigit (c : UInt8) : Bool := 0x30 ≤ c && c ≤ 0x39

def isAlnum (c : UInt8) : Bool := isAlpha c || isDigit c

def isXdigit (c : UInt8) : Bool := (hexDigit c).isSome

/-- A character of an identifier after its first. -/
def isNameChar (c : UInt8) : Bool := isAlnum c || c == 0x2D || c == 0x5F

def isBlank (c : UInt8) : Bool := c == 0x20 || c == 0x09 || c == 0x0D || c == newline

def punctuation (c : UInt8) : Option TokenType :=
  if c = 0x3D then some .equals
  else if c = 0x5B then some .sbracketOpen
  else if c = 0x5D then some .sbracketClose
  else if c = 0x7B then some .braceOpen
  else if c = 0x7D then some .braceClose
  else if c = 0x2C then some .comma
  else none

def slash : UInt8 := 0x2F
def star : UInt8 := 0x2A
def quote : UInt8 := 0x22
def backslash : UInt8 := 0x5C

/-- The character an escape of two characters stands for. -/
def escapeChar (c : UInt8) : Option UInt8 :=
  if c = quote then some quote
  else if c = 0x6E then some newline
  else if c = 0x74 then some 0x09
  else if c = 0x72 then some 0x0D
  else if c = 0x30 then some 0
  else none

/-- strtoul(hex, NULL, 16) assigned to a char; text without a number is 0. -/
def strtoulHex (hex : List UInt8) : UInt8 :=
  match (cText hex).dropWhile isSpace with
  | 0x2D :: text => 0 - UInt8.ofNat ((scanMagnitude text).getD 0)
  | 0x2B :: text => UInt8.ofNat ((scanMagnitude text).getD 0)
  | text => UInt8.ofNat ((scanMagnitude text).getD 0)

/-- The state, and the string of the prepared token. -/
structure Reading where
  state : ScannerState
  string : List UInt8
  deriving DecidableEq, Repr

/-- What one round of the switch leaves. -/
structure Fed where
  reading : Reading
  type : TokenType := .nullToken
  consume : Bool := true
  raised : Option LcfgError := none
  deriving DecidableEq, Repr

def feedStart (p : Position) (c : UInt8) (string : List UInt8) : Fed :=
  if isBlank c then { reading := ⟨.start, string⟩ }
  else match punctuation c with
    | some type => { reading := ⟨.start, string⟩, type := type }
    | none =>
        if c = slash then { reading := ⟨.commStart, string⟩ }
        else if c = quote then { reading := ⟨.inStr, []⟩ }
        else if isAlpha c then { reading := ⟨.inIdentifier, [c]⟩ }
        else { reading := ⟨.invalid, string⟩, raised := some (.inputCharacter c p) }

def feedEscape (p : Position) (c : UInt8) (string : List UInt8) : Fed :=
  match escapeChar c with
  | some b => { reading := ⟨.inStr, string ++ [b]⟩ }
  | none =>
      if c = 0x78 then { reading := ⟨.escHexExpFirst, string⟩ }
      else { reading := ⟨.invalid, string⟩, raised := some (.stringEscape c p) }

/-- The error of a character that is no hexadecimal digit. Both states that report it
go on to the next state. -/
def hexRaised (p : Position) (c : UInt8) : Option LcfgError :=
  if isXdigit c then none else some (.hexEscape c p)

/-- The switch of lcfg_scanner_token_read. -/
def feed (p : Position) (c : UInt8) (r : Reading) : Fed :=
  match r.state with
  | .start => feedStart p c r.string
  | .commStart =>
      if c = slash then { reading := ⟨.inOneline, r.string⟩ }
      else if c = star then { reading := ⟨.inMultiline, r.string⟩ }
      else { reading := ⟨.invalid, r.string⟩, raised := some (.inputCharacter c p) }
  | .inOneline =>
      if c = newline then { reading := ⟨.start, r.string⟩ } else { reading := r }
  | .inMultiline =>
      if c = star then { reading := ⟨.multilineEnd, r.string⟩ } else { reading := r }
  | .multilineEnd =>
      if c = slash then { reading := ⟨.start, r.string⟩ }
      else if c ≠ star then { reading := ⟨.inMultiline, r.string⟩ }
      else { reading := r }
  | .inIdentifier =>
      if isNameChar c then { reading := ⟨.inIdentifier, r.string ++ [c]⟩ }
      else { reading := ⟨.start, r.string⟩, type := .identifier, consume := false }
  | .inStr =>
      if c = quote then { reading := ⟨.start, r.string⟩, type := .string }
      else if c = backslash then { reading := ⟨.inEsc, r.string⟩ }
      else { reading := ⟨.inStr, r.string ++ [c]⟩ }
  | .inEsc => feedEscape p c r.string
  | .escHexExpFirst => { reading := ⟨.escHexExpSecond c, r.string⟩, raised := hexRaised p c }
  | .escHexExpSecond hex =>
      { reading := ⟨.inStr, r.string ++ [strtoulHex [hex, c]]⟩, raised := hexRaised p c }
  | .invalid => { reading := r }

/-! ### Reading the file -/

def bufferSize : ℕ := 0xFF

/-- What a call of read returns. -/
inductive ReadResult where
  | failed (errno : ℕ)
  | data (bytes : List UInt8) (h : bytes.length ≤ bufferSize)
  deriving DecidableEq, Repr

/-- The reads to come, the fields of the buffer, and the error of struct lcfg. When no
reads are left the file has ended. -/
structure Input where
  reads : List ReadResult
  buffer : List UInt8
  offset : ℕ
  size : ℤ
  eof : Bool
  error : Option LcfgError
  deriving DecidableEq, Repr

def Input.raise (s : Input) (e : Option LcfgError) : Input := { s with error := e.or s.error }

def bufferFill (s : Input) : Input :=
  match s.reads with
  | [] => { s with size := 0, eof := true }
  | .failed errno :: reads => { s with reads := reads, size := -1, error := some (.read errno) }
  | .data bytes _ :: reads =>
      if bytes.length = 0 then { s with reads := reads, size := 0, eof := true }
      else { s with
        reads := reads, buffer := bytes ++ s.buffer.drop bytes.length, size := bytes.length
        offset := 0 }

/-- lcfg_scanner_char_eof; the status of the fill is not looked at. -/
def charEof (s : Input) : Bool × Input :=
  if s.eof then (true, s)
  else
    let s := if s.size = 0 ∨ s.offset = bufferSize then bufferFill s else s
    let s := if s.size < bufferSize ∧ (s.offset : ℤ) = s.size then { s with eof := true } else s
    (s.eof, s)

/-- lcfg_scanner_char_peek; c keeps its value at the end of the file. After a read that
failed at the end of a block there is no byte to return. -/
def charPeek (s : Input) (c : UInt8) : Option (UInt8 × Input) :=
  let (eof, s) := charEof s
  if eof then some (c, s.raise (some .peekBeyondEof))
  else s.buffer[s.offset]?.map fun c => (c, s)

def charRead (s : Input) (c : UInt8) : Option (UInt8 × Input) :=
  let (eof, s) := charEof s
  if eof then some (c, s.raise (some .readBeyondEof))
  else s.buffer[s.offset]?.map fun c => (c, { s with offset := s.offset + 1 })

structure Scanner where
  input : Input
  pos : Position
  prepared : Token
  deriving DecidableEq, Repr

/-- lcfg_scanner_new -/
def scannerNew (reads : List ReadResult) (error : Option LcfgError) : Scanner :=
  ⟨⟨reads, List.replicate bufferSize 0, 0, 0, false, error⟩, ⟨1, 1⟩, ⟨.nullToken, [], ⟨0, 0⟩⟩⟩

/-- The loop of lcfg_scanner_token_read in so many rounds; nothing when a round reads
outside the buffer. -/
def tokenLoop : ℕ → Scanner → Reading → UInt8 → Option (Reading × Scanner)
  | 0, _, _, _ => none
  | rounds + 1, s, r, c => do
      let (eof, input) := charEof s.input
      if eof then return (r, { s with input := input }) else
      let (c, input) ← charPeek input c
      let fed := feed s.pos c r
      let prepared : Token := ⟨fed.type, fed.reading.string, s.pos⟩
      let input := input.raise fed.raised
      let (input, pos) ← if fed.consume then do
          let (c, input) ← charRead input c
          pure (input, s.pos.next c)
        else pure (input, s.pos)
      let s : Scanner := ⟨input, pos, prepared⟩
      if fed.type ≠ .nullToken ∨ fed.reading.state = .invalid then return (fed.reading, s)
      else tokenLoop rounds s fed.reading c

/-- More rounds than there are bytes to be read: a fill is followed by at most 255. -/
def Input.left (s : Input) : ℕ := (s.reads.length + 1) * (bufferSize + 1)

def tokenRead (s : Scanner) : Option (LcfgStatus × Scanner) := do
  let prepared : Token := { s.prepared with type := .nullToken }
  let (r, s) ← tokenLoop (s.input.left + 1) { s with prepared := prepared }
    ⟨.start, s.prepared.string⟩ 0
  if r.state ≠ .start then
    if r.state ≠ .invalid then
      return (.error, { s with input := s.input.raise (some (.prematureEof s.pos)) })
    else return (.error, s)
  else return (.ok, s)

/-- lcfg_scanner_init -/
def scannerInit (s : Scanner) : Option (LcfgStatus × Scanner) := tokenRead s

def hasNext (s : Scanner) : Bool := s.prepared.type ≠ .nullToken

/-- lcfg_scanner_next_token: the status is that of reading the token after the one
returned. Without a token t is left as it was. -/
def nextToken (s : Scanner) (t : Token) : Option (LcfgStatus × Token × Scanner) :=
  if ¬ hasNext s then
    some (.error, t, { s with input := s.input.raise (some .tokenBeyondEof) })
  else (tokenRead s).map fun (status, next) => (status, s.prepared, next)

/-! ### Steps of the state machine -/

theorem feedStart_consume (p : Position) (c : UInt8) (string : List UInt8) :
    (feedStart p c string).consume = true := by
  unfold feedStart
  repeat' split
  all_goals rfl

/-- Only the end of an identifier is left for the next token. -/
theorem feed_unconsumed (p : Position) (c : UInt8) (r : Reading)
    (h : (feed p c r).consume = false) :
    r.state = .inIdentifier ∧
      feed p c r =
        { reading := ⟨.start, r.string⟩, type := .identifier, consume := false } := by
  obtain ⟨state, string⟩ := r
  cases state <;> simp only [feed] at h ⊢
  case start => simp [feedStart_consume] at h
  case inEsc =>
    unfold feedEscape at h
    repeat' split at h
    all_goals simp at h
  case inIdentifier =>
    split at h
    · simp at h
    · next hchar => simp [hchar]
  all_goals
    repeat' split at h
    all_goals simp at h

theorem feedStart_type (p : Position) (c : UInt8) (string : List UInt8)
    (h : (feedStart p c string).type ≠ .nullToken) :
    (feedStart p c string).reading.state = .start := by
  unfold feedStart at h ⊢
  split
  · rfl
  · next hblank =>
    rw [if_neg hblank] at h
    split
    · rfl
    · next hpunct =>
      simp only [hpunct] at h
      repeat' split at h
      all_goals simp at h

/-- A token leaves the machine in its first state. -/
theorem feed_type (p : Position) (c : UInt8) (r : Reading) (h : (feed p c r).type ≠ .nullToken) :
    (feed p c r).reading.state = .start := by
  obtain ⟨state, string⟩ := r
  cases state
  case start => exact feedStart_type p c string h
  case inEsc =>
    simp only [feed, feedEscape] at h
    repeat' split at h
    all_goals simp at h
  all_goals
    simp only [feed] at h ⊢
    repeat' split at h
    all_goals simp_all

end OmapBootUtils.LcfgScanner
