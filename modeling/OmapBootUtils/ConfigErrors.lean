import OmapBootUtils.ConfigGrammar

/-!
What the parser reports. A beginning of a document is never reported: when the
file ends there the parser fails without a text of its own. Tokens that are no
beginning of a document are reported at the first token that makes them so.
-/
namespace OmapBootUtils.ConfigErrors

open ConfigHandler LcfgScanner ScannedText LcfgParser ConfigGrammar GrowingString JoinedWords
  LexicalGrammar

/-! ### Beginnings -/

/-- More tokens make the document complete. -/
def Open (p : Pda) (ts : List Token) : Prop := ∃ more entries, Demands p (ts ++ more) entries

def Beginning (ts : List Token) : Prop := ∃ more entries, Document (ts ++ more) entries

def token (type : TokenType) : Token := ⟨type, [], ⟨0, 0⟩⟩

/-- Every element of the stack can be completed. -/
theorem exists_completes (f : StateElement) (path : List UInt8) (h : f.s ≠ .invalid) :
    ∃ ts after entries, Completes f path ts after entries := by
  obtain ⟨state, n⟩ := f
  cases state with
  | topLevel => exact ⟨[], path, [], .nil, .nil, rfl⟩
  | expEquals =>
    exact ⟨[token .equals, token .string], _, _, token .equals, [token .string], _, rfl, rfl,
      .string (token .string) rfl, rfl⟩
  | expValue => exact ⟨[token .string], _, _, _, .string (token .string) rfl, rfl⟩
  | inList =>
    exact ⟨[token .sbracketClose], _, _, [], token .sbracketClose, .nil, path, rfl, rfl, .nil, rfl,
      rfl⟩
  | inMap =>
    exact ⟨[token .braceClose], _, _, [], token .braceClose, .nil, path, rfl, rfl, .nil, rfl, rfl⟩
  | invalid => exact absurd rfl h

theorem exists_closes (f : StateElement) (below : List StateElement) (path : List UInt8)
    (h : Nested f below) : ∃ ts entries, Closes (f :: below) path ts entries := by
  induction below generalizing f path with
  | nil =>
    obtain ⟨ts, after, entries, hfirst⟩ := exists_completes f path (Nested.valid h)
    exact ⟨ts, entries, ts, [], after, entries, [], by simp, hfirst, ⟨rfl, rfl⟩, by simp⟩
  | cons g below ih =>
    obtain ⟨us, after, front, hfirst⟩ := exists_completes f path (Nested.valid h)
    obtain ⟨vs, back, hrest⟩ := ih g after h.2.2
    exact ⟨us ++ vs, front ++ back, us, vs, after, front, back, rfl, hfirst, hrest, rfl⟩

theorem open_nil (p : Pda) (h : p.Nested) : Open p [] := exists_closes p.top p.below p.path h

theorem open_cons_iff (p : Pda) (t : Token) (ts : List Token) (h : p.Nested) :
    Open p (t :: ts) ↔ ∃ p', handle t p = some (p', none) ∧ p'.Nested ∧ Open p' ts := by
  constructor
  · intro hopen
    obtain ⟨more, entries, hdemands⟩ := hopen
    obtain ⟨p', front, back, hhandle, -, hrest, -⟩ :=
      (demands_cons p t (ts ++ more) entries h).mp hdemands
    rcases handle_proceeds t p h p' none hhandle with ⟨-, hnested⟩ | ⟨-, expected, hraised⟩
    · exact ⟨p', hhandle, hnested, more, back, hrest⟩
    · cases hraised
  · intro htaken
    obtain ⟨p', hhandle, -, more, back, hrest⟩ := htaken
    obtain ⟨front, hfront⟩ := handle_values t p p' none hhandle
    exact ⟨more, front ++ back,
      (demands_cons p t (ts ++ more) _ h).mpr ⟨p', front, back, hhandle, hfront, hrest, rfl⟩⟩

theorem open_new_iff (ts : List Token) : Open .new ts ↔ Beginning ts := by
  constructor
  · intro h
    obtain ⟨more, entries, hdemands⟩ := h
    exact ⟨more, entries, (demands_new _ _).mp hdemands⟩
  · intro h
    obtain ⟨more, entries, hdoc⟩ := h
    exact ⟨more, entries, (demands_new _ _).mpr hdoc⟩

/-! ### Lost paths -/

/-- The automaton after tokens that all have a place. -/
def reached (p : Pda) : List Token → Option Pda
  | [] => some p
  | t :: ts => match handle t p with
    | some (p, none) => reached p ts
    | _ => none

/-- The token begins an element of a list whose number PATH_PUSH_INT stores off the path. -/
def LeavesPath (p : Pda) (t : Token) : Prop :=
  p.top.s = .inList ∧ (t.type = .string ∨ t.type = .sbracketOpen ∨ t.type = .braceOpen) ∧
    pushNumber p.path p.top.listCounter = none

/-- It is the token after these that leaves the path. -/
def OffPath (p : Pda) (us : List Token) (t : Token) : Prop :=
  ∃ q, reached p us = some q ∧ LeavesPath q t

theorem offPath_nil (p : Pda) (t : Token) : OffPath p [] t ↔ LeavesPath p t := by
  simp [OffPath, reached]

theorem offPath_cons (p p' : Pda) (u : Token) (us : List Token) (t : Token)
    (h : handle u p = some (p', none)) : OffPath p (u :: us) t ↔ OffPath p' us t := by
  rw [OffPath, OffPath, reached, h]

theorem leave_ne_none (p : Pda) (h : p.Nested) (htop : p.top.s ≠ .topLevel) :
    p.leave ≠ none := by
  obtain ⟨g, below, -, -, -, hleave⟩ := leave_spec p h htop
  rw [hleave]
  exact Option.some_ne_none _

/-- An element of a list is the only token that has no outcome, off the path. -/
theorem handle_none_iff (t : Token) (p : Pda) (h : p.Nested) :
    handle t p = none ↔ LeavesPath p t := by
  obtain ⟨⟨state, n⟩, below, path, values⟩ := p
  cases state with
  | topLevel =>
    simp only [handle, handleSetting, LeavesPath]
    split <;> simp [accept, reject]
  | inMap =>
    have hleave := leave_ne_none _ h (by simp)
    simp only [handle, handleSetting, LeavesPath]
    split
    · simp [accept]
    · split <;> simp [accept, reject, hleave]
  | expEquals =>
    simp only [handle, handleEquals, LeavesPath]
    split <;> simp [accept, reject]
  | expValue =>
    have hleave := leave_ne_none (Pda.addValue ⟨⟨.expValue, n⟩, below, path, values⟩ t.string) h
      (by simp [Pda.addValue])
    simp only [handle, handleValue, LeavesPath]
    split
    · simp [accept, hleave]
    · split
      · simp [accept]
      · split <;> simp [accept, reject]
  | inList =>
    have hleave := leave_ne_none _ h (by simp)
    simp only [handle, handleItem, LeavesPath]
    cases ht : t.type <;> simp [accept, reject, Pda.enterItem, hleave]
  | invalid => exact absurd rfl (Nested.valid h)

/-! ### Reports -/

/-- A beginning is taken token by token. -/
theorem parseStream_open (ts : List Token) (s : TokenStream) (p : Pda) (h : p.Nested)
    (hs : failure s = none) (hopen : Open p ts) :
    ∃ p', parseStream (streamOf ts s) p = parseStream s p' ∧
      ((∃ entries, Demands p ts entries) ↔ p'.complete = true) := by
  induction ts generalizing p with
  | nil =>
    refine ⟨p, rfl, ?_⟩
    simp only [demands_nil p _ h, exists_eq_right]
  | cons t ts ih =>
    obtain ⟨p', hhandle, hnested, hrest⟩ := (open_cons_iff p t ts h).mp hopen
    obtain ⟨p'', hparse, hcomplete⟩ := ih p' hnested hrest
    refine ⟨p'', ?_, ?_⟩
    · rw [parseStream_taken t ts s p p' hs hhandle (Nested.valid hnested), hparse]
    · rw [← hcomplete]
      obtain ⟨front, hfront⟩ := handle_values t p p' none hhandle
      constructor
      · intro hdemands
        obtain ⟨entries, hdemands⟩ := hdemands
        obtain ⟨q, _, back, hq, -, hback, -⟩ := (demands_cons p t ts entries h).mp hdemands
        rw [hhandle] at hq
        obtain ⟨rfl, -⟩ := Prod.mk.inj (Option.some.inj hq)
        exact ⟨back, hback⟩
      · intro hdemands
        obtain ⟨back, hback⟩ := hdemands
        exact ⟨front ++ back,
          (demands_cons p t ts _ h).mpr ⟨p', front, back, hhandle, hfront, hback, rfl⟩⟩

/-- Tokens that are no beginning are reported at the first that has no place, unless it
leaves the path. -/
theorem parseStream_closed (ts : List Token) (s : TokenStream) (p : Pda) (h : p.Nested)
    (hs : failure s = none) (hclosed : ¬ Open p ts) :
    ∃ us t vs, ts = us ++ t :: vs ∧ Open p us ∧ ¬ Open p (us ++ [t]) ∧
      (OffPath p us t ∧ parseStream (streamOf ts s) p = none ∨
        ¬ OffPath p us t ∧ ∃ values expected, parseStream (streamOf ts s) p =
          some ⟨.error, values, some (.invalidToken t.type t.pos expected)⟩) := by
  induction ts generalizing p with
  | nil => exact absurd (open_nil p h) hclosed
  | cons t ts ih =>
    rw [parseStream_token t ts s p hs]
    cases hhandle : handle t p with
    | none =>
      refine ⟨[], t, ts, rfl, open_nil p h, ?_,
        Or.inl ⟨(offPath_nil p t).mpr ((handle_none_iff t p h).mp hhandle), rfl⟩⟩
      intro hopen
      obtain ⟨p', htaken, -⟩ := (open_cons_iff p t [] h).mp hopen
      rw [hhandle] at htaken
      cases htaken
    | some r =>
      obtain ⟨p', raised⟩ := r
      rcases handle_proceeds t p h p' raised hhandle with ⟨rfl, hnested⟩ | ⟨hinvalid, expected, rfl⟩
      · have hrest : ¬ Open p' ts := fun hopen =>
          hclosed ((open_cons_iff p t ts h).mpr ⟨p', hhandle, hnested, hopen⟩)
        obtain ⟨us, u, vs, rfl, hus, hbad, hreport⟩ := ih p' hnested hrest
        refine ⟨t :: us, u, vs, rfl,
          (open_cons_iff p t us h).mpr ⟨p', hhandle, hnested, hus⟩, ?_, ?_⟩
        · intro hopen
          obtain ⟨q, hq, -, hmore⟩ := (open_cons_iff p t (us ++ [u]) h).mp hopen
          rw [hhandle] at hq
          obtain ⟨rfl, -⟩ := Prod.mk.inj (Option.some.inj hq)
          exact hbad hmore
        · rw [Option.bind_some, if_neg (Nested.valid hnested), offPath_cons p p' t us u hhandle]
          exact hreport
      · have hinside : ¬ OffPath p [] t := fun hoff => by
          rw [(handle_none_iff t p h).mpr ((offPath_nil p t).mp hoff)] at hhandle
          cases hhandle
        refine ⟨[], t, ts, rfl, open_nil p h, ?_, Or.inr ⟨hinside, p'.values, expected, ?_⟩⟩
        · intro hopen
          obtain ⟨q, hq, -⟩ := (open_cons_iff p t [] h).mp hopen
          rw [hhandle] at hq
          cases hq
        · rw [Option.bind_some, if_pos hinvalid]

/-! ### Every text -/

/-- How the scanner ends. -/
def ending (failed : Bool) (e : Option LcfgError) : TokenStream :=
  if failed then .failed e else .done e

/-- The parser never sees the token in front of a failure. -/
def seen (failed : Bool) (ts : List Token) : List Token := if failed then ts.dropLast else ts

theorem exists_ending (s : TokenStream) : ∃ ts failed e, s = streamOf ts (ending failed e) := by
  induction s with
  | done e => exact ⟨[], false, e, rfl⟩
  | failed e => exact ⟨[], true, e, rfl⟩
  | token t next ih =>
    obtain ⟨ts, failed, e, rfl⟩ := ih
    exact ⟨t :: ts, failed, e, rfl⟩

/-- What follows the tokens the parser sees has no effect but on the status. -/
theorem parseStream_seen (ts : List Token) (failed : Bool) (e : Option LcfgError) (p : Pda) :
    ∃ s, failure s = none ∧ parseStream (streamOf ts (ending failed e)) p =
        parseStream (streamOf (seen failed ts) s) p ∧
      ∀ q : Pda, ∃ status, parseStream s q = some ⟨status, q.values, e⟩ ∧
        (status = .ok ↔ failed = false ∧ q.complete = true) := by
  cases failed with
  | false =>
    refine ⟨.done e, rfl, rfl, fun q => ⟨_, rfl, ?_⟩⟩
    cases q.complete <;> simp
  | true =>
    have hlast : ∀ t, ∀ q : Pda, ∃ status, parseStream (.token t (.failed e)) q =
        some ⟨status, q.values, e⟩ ∧ (status = .ok ↔ true = false ∧ q.complete = true) :=
      fun t q => ⟨.error, rfl, by simp⟩
    cases ts using List.reverseRecOn with
    | nil => exact ⟨.token (token .string) (.failed e), rfl, rfl, hlast _⟩
    | append_singleton ts t =>
      refine ⟨.token t (.failed e), rfl, ?_, hlast t⟩
      rw [streamOf_append, seen, if_pos rfl, List.dropLast_concat]
      rfl

/-- What becomes of a file. When the tokens the parser sees are a beginning of a document, it
is accepted if they are a whole one and the scanner has come to the end, and the error is that
of the scanner; else the first token that has no place is reported, unless it is an element
of a list whose number is stored off the path. -/
theorem report_cases (reads : List ReadResult) (text : List UInt8)
    (h : delivered reads = some text) :
    ∃ ts failed e, Lexes [] ⟨1, 1⟩ none text (streamOf ts (ending failed e)) ∧
      ((Beginning (seen failed ts) ∧
          ∃ status values, parserRun (.inr reads) = some ⟨status, values, e⟩ ∧
            (status = .ok ↔ failed = false ∧ ∃ entries, Document ts entries)) ∨
        (¬ Beginning (seen failed ts) ∧ ∃ us t vs, seen failed ts = us ++ t :: vs ∧
          Beginning us ∧ ¬ Beginning (us ++ [t]) ∧
          (OffPath .new us t ∧ parserRun (.inr reads) = none ∨
            ¬ OffPath .new us t ∧ ∃ values expected, parserRun (.inr reads) =
              some ⟨.error, values, some (.invalidToken t.type t.pos expected)⟩))) := by
  rw [parserRun_delivered reads text h]
  obtain ⟨ts, failed, e, hstream⟩ := exists_ending (tokens text ⟨.start, []⟩ ⟨1, 1⟩ none)
  refine ⟨ts, failed, e, (lexes_iff [] ⟨1, 1⟩ none text _).mpr hstream, ?_⟩
  obtain ⟨s, hs, hseen, hend⟩ := parseStream_seen ts failed e .new
  have htext : parseText text = parseStream (streamOf (seen failed ts) s) .new := by
    rw [parseText, hstream, hseen]
  rw [htext]
  simp only [← open_new_iff]
  by_cases hopen : Open .new (seen failed ts)
  · obtain ⟨p', hparse, hcomplete⟩ := parseStream_open _ s .new nested_new hs hopen
    obtain ⟨status, hresult, hstatus⟩ := hend p'
    refine Or.inl ⟨hopen, status, p'.values, hparse.trans hresult, ?_⟩
    rw [hstatus, ← hcomplete]
    apply and_congr_right
    intro hfailed
    simp only [demands_new, hfailed, seen, Bool.false_eq_true, if_false]
  · exact Or.inr ⟨hopen, parseStream_closed _ s .new nested_new hs hopen⟩

/-- A list with a map in it, and after it a line = "z": a setting without a name. -/
def nameless : List UInt8 :=
  [0x61, 0x3D, 0x5B, 0x22, 0x78, 0x22, 0x20, 0x7B, 0x62, 0x3D, 0x22, 0x79, 0x22, 0x7D, 0x5D, 0x0A,
    0x3D, 0x22, 0x7A, 0x22, 0x0A]

theorem report_cases_nameless :
    ∃ ts failed e, Lexes [] ⟨1, 1⟩ none nameless (streamOf ts (ending failed e)) ∧
      ((Beginning (seen failed ts) ∧
          ∃ status values, parserRun (.inr [.data nameless (by decide)]) =
            some ⟨status, values, e⟩ ∧
            (status = .ok ↔ failed = false ∧ ∃ entries, Document ts entries)) ∨
        (¬ Beginning (seen failed ts) ∧ ∃ us t vs, seen failed ts = us ++ t :: vs ∧
          Beginning us ∧ ¬ Beginning (us ++ [t]) ∧
          (OffPath .new us t ∧ parserRun (.inr [.data nameless (by decide)]) = none ∨
            ¬ OffPath .new us t ∧
              ∃ values expected, parserRun (.inr [.data nameless (by decide)]) =
                some ⟨.error, values, some (.invalidToken t.type t.pos expected)⟩))) :=
  report_cases [.data nameless (by decide)] nameless rfl

end OmapBootUtils.ConfigErrors
