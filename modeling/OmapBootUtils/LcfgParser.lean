import OmapBootUtils.GrowingString
import OmapBootUtils.ScannedText

/-!
The parser of lcfg: a pushdown automaton over the tokens that keeps the path of
the value to come. The loop asks the scanner for the next token each round; over
the stream of the tokens of the text it does the same, whatever blocks the file
is read in. Strings and paths are lists of bytes here; growing strings hold them
as long as they are below 2^31 - 1 bytes.
-/
namespace OmapBootUtils.LcfgParser

open ConfigHandler LcfgScanner ScannedText GrowingString JoinedWords

/-! ### The automaton -/

inductive PdaState where
  | topLevel
  | expEquals
  | expValue
  | inList
  | inMap
  | invalid
  deriving DecidableEq, Repr

structure StateElement where
  s : PdaState
  listCounter : ℕ
  deriving DecidableEq, Repr

/-- struct lcfg_parser_value_pair, the key up to its NUL. -/
abbrev Entry := List UInt8 × List UInt8

/-- state_stack from ssi down, current_path and the values. -/
structure Pda where
  top : StateElement
  below : List StateElement
  path : List UInt8
  values : List Entry
  deriving DecidableEq, Repr

namespace Pda

def new : Pda := ⟨⟨.topLevel, 0⟩, [], [], []⟩

def setState (p : Pda) (s : PdaState) : Pda := { p with top := { p.top with s := s } }

/-- STATE_STACK_PUSH -/
def pushState (p : Pda) (s : PdaState) : Pda :=
  { p with top := ⟨s, 0⟩, below := p.top :: p.below }

/-- STATE_STACK_POP and PATH_POP; nothing is below the first element of the array. -/
def leave (p : Pda) : Option Pda :=
  match p.below with
  | [] => none
  | top :: below => some { p with top := top, below := below, path := pop dot p.path }

/-- lcfg_parser_add_value -/
def addValue (p : Pda) (value : List UInt8) : Pda :=
  { p with values := p.values ++ [(cText p.path, value)] }

/-- A value in a list is about to be read: PATH_PUSH_INT, and the counter. -/
def enterItem (p : Pda) : Option Pda :=
  (pushNumber p.path p.top.listCounter).map fun path =>
    { p with path := path, top := { p.top with listCounter := p.top.listCounter + 1 } }

end Pda

/-! ### One token -/

/-- The state becomes invalid, and the error says what was expected. -/
def reject (t : Token) (p : Pda) (expected : String) : Option (Pda × Option LcfgError) :=
  some (p.setState .invalid, some (.invalidToken t.type t.pos expected))

def accept (p : Option Pda) : Option (Pda × Option LcfgError) := p.map fun p => (p, none)

def handleSetting (t : Token) (p : Pda) : Option (Pda × Option LcfgError) :=
  if t.type = .identifier then
    accept (some ({ p with path := push dot p.path (cText t.string) }.pushState .expEquals))
  else if p.top.s = .inMap ∧ t.type = .braceClose then accept p.leave
  else reject t p (if p.top.s = .inMap then "identifier or \x60\x7d'" else "identifier")

def handleEquals (t : Token) (p : Pda) : Option (Pda × Option LcfgError) :=
  if t.type = .equals then accept (some (p.setState .expValue)) else reject t p "\x60='"

def handleValue (t : Token) (p : Pda) : Option (Pda × Option LcfgError) :=
  if t.type = .string then accept (p.addValue t.string).leave
  else if t.type = .sbracketOpen then accept (some (p.setState .inList))
  else if t.type = .braceOpen then accept (some (p.setState .inMap))
  else reject t p "string, \x60[' or \x60\x7b'"

/-- Commas are not looked at. The path is left before the stack, or the value added. -/
def handleItem (t : Token) (p : Pda) : Option (Pda × Option LcfgError) :=
  if t.type = .comma then accept (some p)
  else if t.type = .string then
    accept (p.enterItem.map fun p => { p.addValue t.string with path := pop dot p.path })
  else if t.type = .sbracketOpen then accept (p.enterItem.map fun p => p.pushState .inList)
  else if t.type = .braceOpen then accept (p.enterItem.map fun p => p.pushState .inMap)
  else if t.type = .sbracketClose then accept p.leave
  else reject t p "string, \x60[', \x60\x7b', \x60,' or \x60]'"

/-- The switch of lcfg_parser_parse, nothing when it leaves the block of the path. The
state invalid is not reached. -/
def handle (t : Token) (p : Pda) : Option (Pda × Option LcfgError) :=
  match p.top.s with
  | .topLevel => handleSetting t p
  | .inMap => handleSetting t p
  | .expEquals => handleEquals t p
  | .expValue => handleValue t p
  | .inList => handleItem t p
  | .invalid => none

/-! ### The loop -/

/-- At the end only the top level may be open. -/
def Pda.complete (p : Pda) : Bool := p.top.s = .topLevel ∧ p.below = []

/-- The status, the values and the error of struct lcfg. -/
structure Parsed where
  status : LcfgStatus
  values : List Entry
  error : Option LcfgError
  deriving DecidableEq, Repr

def Pda.finish (p : Pda) (error : Option LcfgError) : Parsed :=
  ⟨if p.complete then .ok else .error, p.values, error⟩

def parseLoop : ℕ → Pda → Token → Scanner → Option Parsed
  | 0, _, _, _ => none
  | rounds + 1, p, t, s =>
      if hasNext s ∧ p.top.s ≠ .invalid then do
        let (status, t, s) ← nextToken s t
        if status = .error then return ⟨.error, p.values, s.input.error⟩
        else
          let (p, raised) ← handle t p
          parseLoop rounds p t { s with input := s.input.raise raised }
      else some (p.finish s.input.error)

/-- lcfg_parser_parse; the first token is declared without a value. -/
def parserParse (s : Scanner) : Option Parsed := do
  let (status, s) ← scannerInit s
  if status = .error then return ⟨.error, [], s.input.error⟩
  else parseLoop (s.input.left + 1) .new ⟨.nullToken, [], ⟨0, 0⟩⟩ s

/-- lcfg_parser_run on a file that open does not find, or that is read. -/
def parserRun (file : ℕ ⊕ List ReadResult) : Option Parsed :=
  match file with
  | .inl errno => some ⟨.error, [], some (.openFile errno)⟩
  | .inr reads => parserParse (scannerNew reads none)

/-! ### The parser over a stream of tokens -/

def failure : TokenStream → Option (Option LcfgError)
  | .failed error => some error
  | _ => none

/-- A token is handled once the one after it has been read. -/
def parseStream : TokenStream → Pda → Option Parsed
  | .done error, p => some (p.finish error)
  | .failed error, p => some ⟨.error, p.values, error⟩
  | .token t next, p =>
      match failure next with
      | some error => some ⟨.error, p.values, error⟩
      | none => (handle t p).bind fun (p, raised) =>
          if p.top.s = .invalid then some ⟨.error, p.values, raised⟩ else parseStream next p

def parseText (text : List UInt8) : Option Parsed :=
  parseStream (tokens text ⟨.start, []⟩ ⟨1, 1⟩ none) .new

/-! ### The loop and the stream -/

theorem accept_some (p : Option Pda) (p' : Pda) (raised : Option LcfgError)
    (h : accept p = some (p', raised)) : p = some p' ∧ raised = none := by
  obtain ⟨q, hq, heq⟩ := Option.map_eq_some_iff.mp h
  rw [Prod.mk.injEq] at heq
  exact ⟨hq.trans (by rw [heq.1]), heq.2.symm⟩

/-- A stack element that others may stand on. -/
def StateElement.Holder (f : StateElement) : Prop :=
  f.s = .topLevel ∨ f.s = .inList ∨ f.s = .inMap

structure StateElement.Inner (f : StateElement) : Prop where
  state : f.s = .expEquals ∨ f.s = .expValue ∨ f.s = .inList ∨ f.s = .inMap
  counter : f.s ≠ .inList → f.listCounter = 0

/-- The stack ends with the top level, and only there. -/
def Nested (f : StateElement) : List StateElement → Prop
  | [] => f.s = .topLevel
  | g :: below => f.Inner ∧ g.Holder ∧ Nested g below

def Pda.Nested (p : Pda) : Prop := LcfgParser.Nested p.top p.below

theorem nested_new : Pda.new.Nested := rfl

theorem Nested.valid {f : StateElement} {below : List StateElement} (h : Nested f below) :
    f.s ≠ .invalid := by
  intro hinvalid
  cases below with
  | nil =>
    have htop : f.s = .topLevel := h
    rw [hinvalid] at htop
    cases htop
  | cons g below =>
    have hstate := h.1.state
    rw [hinvalid] at hstate
    simp at hstate

theorem nested_push (f g : StateElement) (below : List StateElement) (hf : f.Inner)
    (hg : g.Holder) (h : Nested g below) : Nested f (g :: below) := ⟨hf, hg, h⟩

theorem inner_new (s : PdaState) (h : s = .expEquals ∨ s = .expValue ∨ s = .inList ∨ s = .inMap) :
    StateElement.Inner ⟨s, 0⟩ := ⟨h, fun _ => rfl⟩

/-- Leaving an inner element uncovers the one it stands on. -/
theorem leave_spec (p : Pda) (h : p.Nested) (htop : p.top.s ≠ .topLevel) :
    ∃ g below, p.below = g :: below ∧ Nested g below ∧ g.Holder ∧
      p.leave = some ⟨g, below, pop dot p.path, p.values⟩ := by
  unfold Pda.Nested at h
  unfold Pda.leave
  cases hbelow : p.below with
  | nil =>
    rw [hbelow] at h
    exact absurd h htop
  | cons g below =>
    rw [hbelow] at h
    exact ⟨g, below, rfl, h.2.2, h.2.1, rfl⟩

/-- The stack stays nested, or the token is rejected with an error that names it. -/
def Proceeds (t : Token) (r : Option (Pda × Option LcfgError)) : Prop :=
  ∀ p raised, r = some (p, raised) →
    (raised = none ∧ p.Nested) ∨
      (p.top.s = .invalid ∧ ∃ expected, raised = some (.invalidToken t.type t.pos expected))

theorem proceeds_reject (t : Token) (p : Pda) (expected : String) :
    Proceeds t (reject t p expected) := by
  intro p' raised h
  obtain ⟨rfl, rfl⟩ := Prod.mk.inj (Option.some.inj h)
  exact Or.inr ⟨rfl, expected, rfl⟩

theorem proceeds_accept (t : Token) (p : Option Pda) (h : ∀ q, p = some q → q.Nested) :
    Proceeds t (accept p) := by
  intro p' raised heq
  obtain ⟨hq, rfl⟩ := accept_some p p' raised heq
  exact Or.inl ⟨rfl, h p' hq⟩

theorem nested_leave (p q : Pda) (h : p.Nested) (htop : p.top.s ≠ .topLevel)
    (hq : p.leave = some q) : q.Nested := by
  obtain ⟨g, below, -, hnested, -, hleave⟩ := leave_spec p h htop
  rw [hq] at hleave
  obtain rfl := Option.some.inj hleave
  exact hnested

theorem enterItem_some (p q : Pda) (h : p.enterItem = some q) :
    q.top = ⟨p.top.s, p.top.listCounter + 1⟩ ∧ q.below = p.below := by
  obtain ⟨path, -, rfl⟩ := Option.map_eq_some_iff.mp h
  exact ⟨rfl, rfl⟩

/-- A list stays nested when its counter goes on. -/
theorem nested_counter (n m : ℕ) (below : List StateElement) (h : Nested ⟨.inList, n⟩ below) :
    Nested ⟨.inList, m⟩ below := by
  cases below with
  | nil => cases h
  | cons g below => exact ⟨⟨h.1.state, fun hne => absurd rfl hne⟩, h.2⟩

/-- An element that is not a list may turn into any other inner one. -/
theorem nested_turn (state next : PdaState) (n : ℕ) (below : List StateElement)
    (h : Nested ⟨state, n⟩ below) (hstate : state = .expEquals ∨ state = .expValue)
    (hnext : next = .expValue ∨ next = .inList ∨ next = .inMap) : Nested ⟨next, n⟩ below := by
  cases below with
  | nil =>
    have htop : state = .topLevel := h
    rw [htop] at hstate
    simp at hstate
  | cons g below =>
    have hzero : n = 0 := h.1.counter (by rcases hstate with rfl | rfl <;> simp)
    exact ⟨⟨Or.inr hnext, fun _ => hzero⟩, h.2⟩

theorem handle_proceeds (t : Token) (p : Pda) (h : p.Nested) : Proceeds t (handle t p) := by
  obtain ⟨⟨state, n⟩, below, path, values⟩ := p
  cases state with
  | topLevel =>
    simp only [handle, handleSetting]
    split
    · apply proceeds_accept
      intro q hq
      obtain rfl := Option.some.inj hq
      exact nested_push _ _ below (inner_new _ (Or.inl rfl)) (Or.inl rfl) h
    · rw [if_neg (by simp)]
      exact proceeds_reject t _ _
  | inMap =>
    simp only [handle, handleSetting]
    split
    · apply proceeds_accept
      intro q hq
      obtain rfl := Option.some.inj hq
      exact nested_push _ _ below (inner_new _ (Or.inl rfl)) (Or.inr (Or.inr rfl)) h
    · split
      · apply proceeds_accept
        intro q hq
        exact nested_leave _ q h (by simp) hq
      · exact proceeds_reject t _ _
  | expEquals =>
    simp only [handle, handleEquals]
    split
    · apply proceeds_accept
      intro q hq
      obtain rfl := Option.some.inj hq
      exact nested_turn _ _ n below h (Or.inl rfl) (Or.inl rfl)
    · exact proceeds_reject t _ _
  | expValue =>
    simp only [handle, handleValue]
    split
    · apply proceeds_accept
      intro q hq
      exact nested_leave (Pda.addValue ⟨⟨.expValue, n⟩, below, path, values⟩ t.string) q h
        (by simp [Pda.addValue]) hq
    · split
      · apply proceeds_accept
        intro q hq
        obtain rfl := Option.some.inj hq
        exact nested_turn _ _ n below h (Or.inr rfl) (Or.inr (Or.inl rfl))
      · split
        · apply proceeds_accept
          intro q hq
          obtain rfl := Option.some.inj hq
          exact nested_turn _ _ n below h (Or.inr rfl) (Or.inr (Or.inr rfl))
        · exact proceeds_reject t _ _
  | inList =>
    have hitem : ∀ q, Pda.enterItem ⟨⟨.inList, n⟩, below, path, values⟩ = some q →
        Nested q.top q.below ∧ q.top.Holder := by
      intro q hq
      obtain ⟨htop, hbelow⟩ := enterItem_some _ q hq
      rw [htop, hbelow]
      exact ⟨nested_counter n (n + 1) below h, Or.inr (Or.inl rfl)⟩
    simp only [handle, handleItem]
    split
    · apply proceeds_accept
      intro q hq
      obtain rfl := Option.some.inj hq
      exact h
    · split
      · apply proceeds_accept
        intro q hq
        obtain ⟨r, hr, rfl⟩ := Option.map_eq_some_iff.mp hq
        exact (hitem r hr).1
      · split
        · apply proceeds_accept
          intro q hq
          obtain ⟨r, hr, rfl⟩ := Option.map_eq_some_iff.mp hq
          exact nested_push _ _ _ (inner_new _ (Or.inr (Or.inr (Or.inl rfl)))) (hitem r hr).2
            (hitem r hr).1
        · split
          · apply proceeds_accept
            intro q hq
            obtain ⟨r, hr, rfl⟩ := Option.map_eq_some_iff.mp hq
            exact nested_push _ _ _ (inner_new _ (Or.inr (Or.inr (Or.inr rfl)))) (hitem r hr).2
              (hitem r hr).1
          · split
            · apply proceeds_accept
              intro q hq
              exact nested_leave _ q h (by simp) hq
            · exact proceeds_reject t _ _
  | invalid => exact absurd rfl (Nested.valid h)

theorem prepared_failure (s : Scanner) (text : List UInt8) : failure (prepared s text) = none := by
  unfold prepared
  split <;> rfl

theorem parseLoop_invalid (rounds : ℕ) (p : Pda) (t : Token) (s : Scanner)
    (h : p.top.s = .invalid) :
    parseLoop (rounds + 1) p t s = some ⟨.error, p.values, s.input.error⟩ := by
  rw [parseLoop, if_neg (by simp [h])]
  simp [Pda.finish, Pda.complete, h]

/-- The loop that asks for tokens does what the parser does with the tokens of the text. -/
theorem parseLoop_spec (rounds : ℕ) (p : Pda) (t : Token) (s : Scanner) (text : List UInt8)
    (h : Delivers s.input text) (hp : p.Nested) (hrounds : 0 < rounds)
    (hnext : hasNext s → text.length + 1 < rounds) :
    parseLoop rounds p t s = parseStream (prepared s text) p := by
  induction rounds generalizing p t s text with
  | zero => omega
  | succ rounds ih =>
    rw [parseLoop, prepared]
    by_cases htype : s.prepared.type = .nullToken
    · have hlast : ¬ (hasNext s ∧ p.top.s ≠ .invalid) := by simp [hasNext, htype]
      rw [if_neg hlast, if_pos htype]
      rfl
    · have hmore : hasNext s = true := by simp [hasNext, htype]
      have hrest := hnext hmore
      obtain ⟨status, s', hread, hspec⟩ := tokenRead_spec s text h
      have htoken : nextToken s t = some (status, s.prepared, s') := by
        rw [nextToken, if_neg (by simp [hmore]), hread]
        rfl
      rw [if_pos ⟨hmore, Nested.valid hp⟩, if_neg htype, htoken, parseStream]
      cases status with
      | error =>
        simp only at hspec
        rw [hspec]
        rfl
      | ok =>
        obtain ⟨left, hleft, hstream, hless⟩ := hspec
        rw [hstream, prepared_failure]
        simp only [Option.bind_eq_bind, Option.bind_some]
        cases hhandle : handle s.prepared p with
        | none => rfl
        | some r =>
          obtain ⟨p', raised⟩ := r
          rcases handle_proceeds s.prepared p hp p' raised hhandle with
            ⟨rfl, hnested⟩ | ⟨hinvalid, expected, rfl⟩
          · simp only [Option.bind_some, if_neg (Nested.valid hnested)]
            exact ih p' s.prepared s' left hleft hnested (by omega) (fun hn => by
              have := hless hn
              omega)
          · obtain ⟨rounds, rfl⟩ := Nat.exists_eq_succ_of_ne_zero (by omega : rounds ≠ 0)
            simp only [Option.bind_some, if_pos hinvalid]
            exact parseLoop_invalid rounds p' _ _ hinvalid

/-- The parser of a file is the parser of the text its reads deliver. -/
theorem parserRun_delivered (reads : List ReadResult) (text : List UInt8)
    (h : delivered reads = some text) : parserRun (.inr reads) = parseText text := by
  have hnew := delivers_new reads none text h
  obtain ⟨status, s', hread, hspec⟩ := tokenRead_spec _ text hnew
  simp only [parserRun, parserParse, scannerInit, hread, Option.bind_eq_bind, Option.bind_some]
  have htext : parseText text = parseStream
      (tokens text ⟨.start, (scannerNew reads none).prepared.string⟩ (scannerNew reads none).pos
        (scannerNew reads none).input.error) .new := rfl
  cases status with
  | error =>
    simp only at hspec
    rw [htext, hspec]
    rfl
  | ok =>
    obtain ⟨left, hleft, hstream, -⟩ := hspec
    have hlen := hleft.length_lt
    rw [htext, hstream]
    exact parseLoop_spec _ .new _ s' left hleft nested_new (by omega) (fun _ => by omega)

/-- When the first read fails, the scanner takes the zeroed buffer for text, and the
error of the read is replaced. -/
theorem read_failure_masked (errno : ℕ) (reads : List ReadResult) :
    parserRun (.inr (.failed errno :: reads)) =
      some ⟨.error, [], some (.inputCharacter 0 ⟨1, 1⟩)⟩ := by
  have hread : tokenRead (scannerNew (.failed errno :: reads) none) = some (.error,
      ⟨⟨reads, List.replicate bufferSize 0, 1, -1, false, some (.inputCharacter 0 ⟨1, 1⟩)⟩,
        ⟨1, 2⟩, ⟨.nullToken, [], ⟨1, 1⟩⟩⟩) := rfl
  simp [parserRun, parserParse, scannerInit, hread]

end OmapBootUtils.LcfgParser
