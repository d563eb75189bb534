import OmapBootUtils.LcfgScanner

/-!
The scanner over the whole text. What the reads of a file deliver up to the first
short one is the text; the scanner over the blocks prepares the tokens of that
text, one for each call, and ends as the text does.
-/
namespace OmapBootUtils.ScannedText

open ConfigHandler LcfgScanner

/-! ### Tokens of a text -/

/-- Tokens one after the other; at the end the file is used up, or the scanner has
failed, with the error of struct lcfg. -/
inductive TokenStream where
  | done (error : Option LcfgError)
  | failed (error : Option LcfgError)
  | token (t : Token) (next : TokenStream)
  deriving DecidableEq, Repr

/-- What follows a character that was consumed. -/
def settle (p : Position) (fed : Fed) (error : Option LcfgError)
    (next : Reading → Option LcfgError → TokenStream) : TokenStream :=
  if fed.reading.state = .invalid then .failed (fed.raised.or error)
  else if fed.type = .nullToken then next fed.reading (fed.raised.or error)
  else .token ⟨fed.type, fed.reading.string, p⟩
    (next ⟨.start, fed.reading.string⟩ (fed.raised.or error))

/-- The tokens of a text. A character that ends an identifier is read once more. -/
def tokens : List UInt8 → Reading → Position → Option LcfgError → TokenStream
  | [], r, p, error => if r.state = .start then .done error else .failed (some (.prematureEof p))
  | c :: rest, r, p, error =>
      let fed := feed p c r
      if fed.consume then settle p fed error fun r error => tokens rest r (p.next c) error
      else .token ⟨fed.type, fed.reading.string, p⟩
        (settle p (feedStart p c fed.reading.string) error fun r error =>
          tokens rest r (p.next c) error)

theorem tokens_consumed (c : UInt8) (rest : List UInt8) (r : Reading) (p : Position)
    (error : Option LcfgError) (h : (feed p c r).consume = true) :
    tokens (c :: rest) r p error =
      settle p (feed p c r) error fun r error => tokens rest r (p.next c) error := by
  rw [tokens]
  simp only [h, if_true]

theorem tokens_unconsumed (c : UInt8) (rest : List UInt8) (r : Reading) (p : Position)
    (error : Option LcfgError) (h : (feed p c r).consume = false) :
    tokens (c :: rest) r p error =
      .token ⟨(feed p c r).type, (feed p c r).reading.string, p⟩
        (tokens (c :: rest) ⟨.start, (feed p c r).reading.string⟩ p error) := by
  have hstart : (feed p c ⟨.start, (feed p c r).reading.string⟩).consume = true :=
    feedStart_consume p c _
  rw [tokens_consumed c rest _ p error hstart, tokens]
  simp only [h, Bool.false_eq_true, if_false]
  rfl

section Steps

variable (c : UInt8) (rest : List UInt8) (r : Reading) (p : Position) (error : Option LcfgError)

theorem tokens_raised (r' : Reading) (raised : Option LcfgError)
    (h : feed p c r = { reading := r', raised := raised }) (hstate : r'.state ≠ .invalid) :
    tokens (c :: rest) r p error = tokens rest r' (p.next c) (raised.or error) := by
  rw [tokens_consumed c rest r p error (by rw [h]), h, settle, if_neg hstate, if_pos rfl]

theorem tokens_move (r' : Reading) (h : feed p c r = { reading := r' })
    (hstate : r'.state ≠ .invalid) :
    tokens (c :: rest) r p error = tokens rest r' (p.next c) error :=
  tokens_raised c rest r p error r' none h hstate

theorem tokens_emit (type : TokenType) (string : List UInt8) (htype : type ≠ .nullToken)
    (h : feed p c r = { reading := ⟨.start, string⟩, type := type }) :
    tokens (c :: rest) r p error =
      .token ⟨type, string, p⟩ (tokens rest ⟨.start, string⟩ (p.next c) error) := by
  rw [tokens_consumed c rest r p error (by rw [h]), h, settle, if_neg (by simp), if_neg htype]
  rfl

theorem tokens_invalid (string : List UInt8) (e : LcfgError)
    (h : feed p c r = { reading := ⟨.invalid, string⟩, raised := some e }) :
    tokens (c :: rest) r p error = .failed (some e) := by
  rw [tokens_consumed c rest r p error (by rw [h]), h, settle, if_pos rfl]
  rfl

end Steps

/-! ### The blocks of a file -/

/-- The text the reads deliver; a block that is not full is taken for the last. -/
def delivered : List ReadResult → Option (List UInt8)
  | [] => some []
  | .failed _ :: _ => none
  | .data bytes _ :: reads =>
      if bytes.length < bufferSize then some bytes else (delivered reads).map (bytes ++ ·)

/-- The next character is in the buffer. -/
structure Ready (s : Input) (c : UInt8) : Prop where
  open_ : s.eof = false
  within : (s.offset : ℤ) < s.size
  bound : s.size ≤ bufferSize
  byte : s.buffer[s.offset]? = some c

/-- What the scanner still reads of the file. -/
inductive Delivers (s : Input) : List UInt8 → Prop
  | ended (h : s.eof = true) : Delivers s []
  | unread (text : List UInt8) (h : s.eof = false) (hsize : s.size = 0) (hoffset : s.offset = 0)
      (hbuffer : s.buffer.length = bufferSize) (htext : delivered s.reads = some text) :
      Delivers s text
  | within (front pending behind after : List UInt8) (h : s.eof = false)
      (hbuffer : s.buffer = front ++ pending ++ behind) (hfull : s.buffer.length = bufferSize)
      (hoffset : s.offset = front.length) (hsize : s.size = (front ++ pending).length)
      (hpos : 0 < (front ++ pending).length)
      (hafter : if behind = [] then delivered s.reads = some after else after = []) :
      Delivers s (pending ++ after)

theorem Delivers.raise {s : Input} {text : List UInt8} (h : Delivers s text)
    (e : Option LcfgError) : Delivers (s.raise e) text := by
  cases h with
  | ended h => exact .ended h
  | unread text h hsize hoffset hbuffer htext => exact .unread text h hsize hoffset hbuffer htext
  | within front pending behind after h hbuffer hfull hoffset hsize hpos hafter =>
    exact .within front pending behind after h hbuffer hfull hoffset hsize hpos hafter

theorem charEof_ready (s : Input) (c : UInt8) (h : Ready s c) : charEof s = (false, s) := by
  obtain ⟨hopen, hwithin, hbound, -⟩ := h
  have hfill : ¬ (s.size = 0 ∨ s.offset = bufferSize) := by omega
  have hend : ¬ (s.size < bufferSize ∧ (s.offset : ℤ) = s.size) := by omega
  simp only [charEof, hopen, Bool.false_eq_true, if_false, if_neg hfill, if_neg hend]

/-- The characters after the one in the buffer. -/
structure At (s : Input) (c : UInt8) (rest : List UInt8) : Prop where
  ready : Ready s c
  here : Delivers s (c :: rest)
  next : Delivers { s with offset := s.offset + 1 } rest

theorem at_within (s : Input) (front pending behind after : List UInt8) (c : UInt8)
    (h : s.eof = false) (hbuffer : s.buffer = front ++ (c :: pending) ++ behind)
    (hfull : s.buffer.length = bufferSize) (hoffset : s.offset = front.length)
    (hsize : s.size = (front ++ c :: pending).length)
    (hafter : if behind = [] then delivered s.reads = some after else after = []) :
    At s c (pending ++ after) where
  ready := by
    have hlen := congrArg List.length hbuffer
    rw [hfull, List.length_append] at hlen
    refine ⟨h, ?_, ?_, ?_⟩
    · rw [hoffset, hsize, List.length_append, List.length_cons]
      omega
    · rw [hsize]
      omega
    · rw [hbuffer, hoffset, List.append_assoc, List.getElem?_append_right le_rfl]
      simp
  here := .within front (c :: pending) behind after h hbuffer hfull hoffset hsize (by simp) hafter
  next := by
    refine .within (front ++ [c]) pending behind after h ?_ ?_ ?_ ?_ ?_ ?_
    · simpa using hbuffer
    · exact hfull
    · simp [hoffset]
    · rw [hsize]
      simp
    · simp
    · exact hafter

theorem At.raise {s : Input} {c : UInt8} {rest : List UInt8} (h : At s c rest)
    (e : Option LcfgError) : At (s.raise e) c rest where
  ready := ⟨h.ready.open_, h.ready.within, h.ready.bound, h.ready.byte⟩
  here := h.here.raise e
  next := h.next.raise e

/-- A fill that delivers a character puts it first in the buffer. -/
theorem bufferFill_at (s : Input) (c : UInt8) (rest : List UInt8) (h : s.eof = false)
    (hfull : s.buffer.length = bufferSize) (htext : delivered s.reads = some (c :: rest)) :
    At (bufferFill s) c rest ∧ (bufferFill s).error = s.error := by
  cases hreads : s.reads with
  | nil => simp [hreads, delivered] at htext
  | cons r reads =>
    cases r with
    | failed errno => simp [hreads, delivered] at htext
    | data bytes hbytes =>
      cases bytes with
      | nil =>
        have hshort : (0 : ℕ) < bufferSize := by decide
        simp [hreads, delivered, hshort] at htext
      | cons b bytes =>
        have hfill : bufferFill s = { s with
            reads := reads, buffer := (b :: bytes) ++ s.buffer.drop (b :: bytes).length
            size := (b :: bytes).length, offset := 0 } := by
          simp only [bufferFill, hreads]
          exact if_neg (by simp)
        obtain ⟨hc, after, hrest, hafter⟩ : b = c ∧ ∃ after, rest = bytes ++ after ∧
            if s.buffer.drop (b :: bytes).length = [] then delivered reads = some after
            else after = [] := by
          rw [hreads, delivered] at htext
          by_cases hshort : (b :: bytes).length < bufferSize
          · rw [if_pos hshort, Option.some.injEq, List.cons.injEq] at htext
            refine ⟨htext.1, [], by simp [htext.2], ?_⟩
            rw [if_neg (by rw [List.drop_eq_nil_iff]; omega)]
          · rw [if_neg hshort, Option.map_eq_some_iff] at htext
            obtain ⟨after, hafter, heq⟩ := htext
            rw [List.cons_append, List.cons.injEq] at heq
            refine ⟨heq.1, after, heq.2.symm, ?_⟩
            rw [if_pos (by rw [List.drop_eq_nil_iff]; omega)]
            exact hafter
        subst hc hrest
        rw [hfill]
        refine ⟨at_within _ [] bytes _ after b h rfl ?_ rfl rfl hafter, rfl⟩
        rw [List.length_append, List.length_drop]
        omega

theorem bufferFill_eof (s : Input) (htext : delivered s.reads = some []) :
    (bufferFill s).eof = true ∧ (bufferFill s).error = s.error := by
  unfold bufferFill
  cases hreads : s.reads with
  | nil => exact ⟨rfl, rfl⟩
  | cons r reads =>
    cases r with
    | failed errno => simp [hreads, delivered] at htext
    | data bytes hbytes =>
      have hnil : bytes = [] := by
        rw [hreads, delivered] at htext
        split at htext
        · exact Option.some.inj htext
        · next hshort =>
          obtain ⟨after, -, heq⟩ := Option.map_eq_some_iff.mp htext
          exact (List.append_eq_nil_iff.mp heq).1
      subst hnil
      exact ⟨rfl, rfl⟩

/-- A fill is due when the buffer is used up. -/
theorem charEof_fill (s : Input) (h : s.eof = false) (hdue : s.size = 0 ∨ s.offset = bufferSize) :
    charEof s =
      ((if (bufferFill s).size < bufferSize ∧ ((bufferFill s).offset : ℤ) = (bufferFill s).size
          then { bufferFill s with eof := true } else bufferFill s).eof,
        if (bufferFill s).size < bufferSize ∧ ((bufferFill s).offset : ℤ) = (bufferFill s).size
          then { bufferFill s with eof := true } else bufferFill s) := by
  simp only [charEof, h, Bool.false_eq_true, if_false, if_pos hdue]

theorem charEof_fill_eof (s : Input) (h : s.eof = false)
    (hdue : s.size = 0 ∨ s.offset = bufferSize) (htext : delivered s.reads = some []) :
    ∃ s', charEof s = (true, s') ∧ s'.error = s.error ∧ Delivers s' [] := by
  obtain ⟨heof, herror⟩ := bufferFill_eof s htext
  rw [charEof_fill s h hdue]
  split
  · exact ⟨_, rfl, herror, .ended rfl⟩
  · exact ⟨bufferFill s, by rw [heof], herror, .ended heof⟩

theorem charEof_fill_at (s : Input) (c : UInt8) (rest : List UInt8) (h : s.eof = false)
    (hdue : s.size = 0 ∨ s.offset = bufferSize) (hfull : s.buffer.length = bufferSize)
    (htext : delivered s.reads = some (c :: rest)) :
    ∃ s', charEof s = (false, s') ∧ s'.error = s.error ∧ At s' c rest := by
  obtain ⟨hat, herror⟩ := bufferFill_at s c rest h hfull htext
  have hwithin := hat.ready.within
  refine ⟨bufferFill s, ?_, herror, hat⟩
  rw [charEof_fill s h hdue, if_neg (by omega), hat.ready.open_]

/-- At the end of the text the file ends. -/
theorem charEof_nil (s : Input) (h : Delivers s []) :
    ∃ s', charEof s = (true, s') ∧ s'.error = s.error ∧ Delivers s' [] := by
  generalize htext : ([] : List UInt8) = text at h
  cases h with
  | ended h => exact ⟨s, by simp [charEof, h], rfl, .ended h⟩
  | unread text h hsize hoffset hbuffer hreads =>
    subst htext
    exact charEof_fill_eof s h (Or.inl hsize) hreads
  | within front pending behind after h hbuffer hfull hoffset hsize hpos hafter =>
    obtain ⟨rfl, rfl⟩ := List.append_eq_nil_iff.mp htext.symm
    rw [List.append_nil] at hbuffer hsize hpos
    have hlen := congrArg List.length hbuffer
    rw [hfull, List.length_append] at hlen
    by_cases hbehind : behind = []
    · rw [if_pos hbehind] at hafter
      rw [hbehind, List.length_nil] at hlen
      exact charEof_fill_eof s h (Or.inr (by omega)) hafter
    · have hlast : 0 < behind.length := List.length_pos_iff.mpr hbehind
      have hfill : ¬ (s.size = 0 ∨ s.offset = bufferSize) := by omega
      have hend : s.size < bufferSize ∧ (s.offset : ℤ) = s.size := by omega
      refine ⟨{ s with eof := true }, ?_, rfl, .ended rfl⟩
      simp only [charEof, h, Bool.false_eq_true, if_false, if_neg hfill, if_pos hend]

theorem charEof_cons (s : Input) (c : UInt8) (rest : List UInt8) (h : Delivers s (c :: rest)) :
    ∃ s', charEof s = (false, s') ∧ s'.error = s.error ∧ At s' c rest := by
  generalize htext : c :: rest = text at h
  cases h with
  | ended h => cases htext
  | unread text h hsize hoffset hbuffer hreads =>
    subst htext
    exact charEof_fill_at s c rest h (Or.inl hsize) hbuffer hreads
  | within front pending behind after h hbuffer hfull hoffset hsize hpos hafter =>
    cases pending with
    | nil =>
      rw [List.nil_append] at htext
      subst htext
      rw [List.append_nil] at hbuffer
      have hlen := congrArg List.length hbuffer
      rw [hfull, List.length_append] at hlen
      have hbehind : behind = [] := by
        by_contra hne
        rw [if_neg hne] at hafter
        cases hafter
      rw [if_pos hbehind] at hafter
      rw [hbehind, List.length_nil] at hlen
      exact charEof_fill_at s c rest h (Or.inr (by omega)) hfull hafter
    | cons x pending =>
      rw [List.cons_append, List.cons.injEq] at htext
      obtain ⟨rfl, rfl⟩ := htext
      have hat := at_within s front pending behind after c h hbuffer hfull hoffset hsize hafter
      exact ⟨s, charEof_ready s c hat.ready, rfl, hat⟩

/-! ### One token -/

theorem tokenLoop_nil (rounds : ℕ) (s : Scanner) (r : Reading) (c : UInt8)
    (h : Delivers s.input []) :
    ∃ input, tokenLoop (rounds + 1) s r c = some (r, { s with input := input }) ∧
      input.error = s.input.error ∧ Delivers input [] := by
  obtain ⟨input, heof, herror, hnext⟩ := charEof_nil s.input h
  refine ⟨input, ?_, herror, hnext⟩
  rw [tokenLoop, heof]
  rfl

/-- The round that reads the next character of the text. -/
theorem tokenLoop_cons (rounds : ℕ) (s : Scanner) (r : Reading) (c ch : UInt8)
    (rest : List UInt8) (h : Delivers s.input (ch :: rest)) :
    ∃ input, input.error = (feed s.pos ch r).raised.or s.input.error ∧
      Delivers input (if (feed s.pos ch r).consume then rest else ch :: rest) ∧
      tokenLoop (rounds + 1) s r c =
        let next : Scanner := ⟨input, if (feed s.pos ch r).consume then s.pos.next ch else s.pos,
          ⟨(feed s.pos ch r).type, (feed s.pos ch r).reading.string, s.pos⟩⟩
        if (feed s.pos ch r).type ≠ .nullToken ∨ (feed s.pos ch r).reading.state = .invalid then
          some ((feed s.pos ch r).reading, next)
        else tokenLoop rounds next (feed s.pos ch r).reading ch := by
  obtain ⟨input, heof, herror, hat⟩ := charEof_cons s.input ch rest h
  have hpeek : charPeek input c = some (ch, input) := by
    unfold charPeek
    rw [charEof_ready input ch hat.ready]
    simp [hat.ready.byte]
  have hraised := hat.raise (feed s.pos ch r).raised
  have hread : charRead (input.raise (feed s.pos ch r).raised) ch =
      some (ch, { input.raise (feed s.pos ch r).raised with offset := input.offset + 1 }) := by
    unfold charRead
    rw [charEof_ready _ ch hraised.ready]
    simp [hraised.ready.byte]
    rfl
  by_cases hconsume : (feed s.pos ch r).consume = true
  · refine ⟨{ input.raise (feed s.pos ch r).raised with offset := input.offset + 1 }, ?_, ?_, ?_⟩
    · rw [← herror]
      rfl
    · rw [if_pos hconsume]
      exact hraised.next
    · rw [tokenLoop, heof]
      simp only [Bool.false_eq_true, if_false, hpeek, Option.bind_eq_bind, Option.bind_some,
        hconsume, if_true, hread, Option.pure_def]
  · refine ⟨input.raise (feed s.pos ch r).raised, ?_, ?_, ?_⟩
    · rw [← herror]
      rfl
    · rw [if_neg hconsume]
      exact hraised.here
    · rw [tokenLoop, heof]
      simp only [Bool.false_eq_true, if_false, hpeek, Option.bind_eq_bind, Option.bind_some,
        hconsume, Option.pure_def]

/-- The stream at the end of the loop, when the text is what is left of the file. -/
def outcome (r : Reading) (s : Scanner) (text : List UInt8) : TokenStream :=
  if r.state = .invalid then .failed s.input.error
  else if r.state ≠ .start then .failed (some (.prematureEof s.pos))
  else if s.prepared.type = .nullToken then .done s.input.error
  else .token s.prepared (tokens text ⟨.start, s.prepared.string⟩ s.pos s.input.error)

/-- The loop stops where the tokens of the text have their next token, or end. -/
theorem tokenLoop_spec (rounds : ℕ) (text : List UInt8) (s : Scanner) (r : Reading) (c : UInt8)
    (h : Delivers s.input text) (hrounds : text.length < rounds) (hstate : r.state ≠ .invalid)
    (htype : s.prepared.type = .nullToken) :
    ∃ r' s' left, tokenLoop rounds s r c = some (r', s') ∧ Delivers s'.input left ∧
      tokens text r s.pos s.input.error = outcome r' s' left ∧
      left.length + (if r.state = .start ∧ s'.prepared.type ≠ .nullToken then 1 else 0) ≤
        text.length := by
  induction text generalizing rounds s r c with
  | nil =>
    obtain ⟨rounds, rfl⟩ := Nat.exists_eq_add_of_lt hrounds
    obtain ⟨input, hloop, herror, hnext⟩ := tokenLoop_nil (0 + rounds) s r c h
    refine ⟨r, _, [], hloop, hnext, ?_, by simp [htype]⟩
    simp only [tokens, outcome, if_neg hstate, htype, if_true, herror]
    split <;> simp_all
  | cons ch rest ih =>
    obtain ⟨rounds, rfl⟩ := Nat.exists_eq_succ_of_ne_zero (by omega : rounds ≠ 0)
    obtain ⟨input, herror, hnext, hloop⟩ := tokenLoop_cons rounds s r c ch rest h
    rw [hloop]
    cases hconsume : (feed s.pos ch r).consume with
    | false =>
      obtain ⟨hname, hfed⟩ := feed_unconsumed s.pos ch r hconsume
      rw [hconsume] at hnext
      rw [hfed] at herror ⊢
      refine ⟨_, _, ch :: rest, if_pos (Or.inl (by simp)), hnext, ?_, by simp [hname]⟩
      rw [tokens_unconsumed ch rest r s.pos _ hconsume, hfed]
      simp only [outcome, herror, Option.none_or]
      rfl
    | true =>
      rw [hconsume, if_pos rfl] at hnext
      rw [tokens_consumed ch rest r s.pos _ hconsume, settle, ← herror]
      simp only [if_true]
      by_cases hinvalid : (feed s.pos ch r).reading.state = .invalid
      · rw [if_pos (Or.inr hinvalid), if_pos hinvalid]
        refine ⟨_, _, rest, rfl, hnext, ?_, ?_⟩
        · simp only [outcome, if_pos hinvalid]
        · rw [List.length_cons]
          split <;> omega
      · rw [if_neg hinvalid]
        by_cases htoken : (feed s.pos ch r).type = .nullToken
        · rw [if_neg (by simp [htoken, hinvalid]), if_pos htoken]
          obtain ⟨r', s', left, hrest, hleft, hstream, hlen⟩ := ih rounds
            ⟨input, s.pos.next ch, ⟨(feed s.pos ch r).type, (feed s.pos ch r).reading.string, s.pos⟩⟩
            (feed s.pos ch r).reading ch hnext (by rw [List.length_cons] at hrounds; omega)
            hinvalid htoken
          refine ⟨r', s', left, hrest, hleft, hstream, ?_⟩
          rw [List.length_cons]
          split <;> omega
        · have hstart := feed_type s.pos ch r htoken
          rw [if_pos (Or.inl htoken), if_neg htoken]
          refine ⟨_, _, rest, rfl, hnext, ?_, ?_⟩
          · simp [outcome, hstart, htoken]
          · rw [List.length_cons]
            split <;> omega

theorem delivered_length (reads : List ReadResult) (text : List UInt8)
    (h : delivered reads = some text) : text.length ≤ reads.length * (bufferSize + 1) := by
  induction reads generalizing text with
  | nil =>
    obtain rfl := Option.some.inj h
    simp
  | cons r reads ih =>
    rw [List.length_cons, Nat.add_mul, Nat.one_mul]
    cases r with
    | failed errno => cases h
    | data bytes hbytes =>
      rw [delivered] at h
      split at h
      · obtain rfl := Option.some.inj h
        omega
      · obtain ⟨after, hafter, rfl⟩ := Option.map_eq_some_iff.mp h
        have hrest := ih after hafter
        rw [List.length_append]
        omega

theorem Delivers.length_lt {s : Input} {text : List UInt8} (h : Delivers s text) :
    text.length < s.left := by
  have hleft : s.left = s.reads.length * (bufferSize + 1) + (bufferSize + 1) := by
    rw [Input.left, Nat.add_mul, Nat.one_mul]
  cases h with
  | ended h =>
    rw [hleft, List.length_nil]
    omega
  | unread text h hsize hoffset hbuffer htext =>
    have hlen := delivered_length s.reads _ htext
    omega
  | within front pending behind after h hbuffer hfull hoffset hsize hpos hafter =>
    have hlen := congrArg List.length hbuffer
    simp only [hfull, List.length_append] at hlen
    rw [List.length_append]
    split at hafter
    · have hrest := delivered_length s.reads after hafter
      omega
    · simp only [hafter, List.length_nil]
      omega

/-- The tokens that follow the prepared one, when the text is what is left of the file. -/
def prepared (s : Scanner) (text : List UInt8) : TokenStream :=
  if s.prepared.type = .nullToken then .done s.input.error
  else .token s.prepared (tokens text ⟨.start, s.prepared.string⟩ s.pos s.input.error)

/-- A call prepares the next token of the text, or fails as the text does. -/
theorem tokenRead_spec (s : Scanner) (text : List UInt8) (h : Delivers s.input text) :
    ∃ status s', tokenRead s = some (status, s') ∧
      match status with
      | .error => tokens text ⟨.start, s.prepared.string⟩ s.pos s.input.error =
          .failed s'.input.error
      | .ok => ∃ left, Delivers s'.input left ∧
          tokens text ⟨.start, s.prepared.string⟩ s.pos s.input.error = prepared s' left ∧
          (hasNext s' → left.length < text.length) := by
  have hlen := h.length_lt
  obtain ⟨r', s', left, hloop, hleft, hstream, hless⟩ := tokenLoop_spec (s.input.left + 1) text
    { s with prepared := { s.prepared with type := .nullToken } } ⟨.start, s.prepared.string⟩ 0
    h (by omega) (by simp) rfl
  unfold tokenRead
  simp only [hloop, Option.bind_eq_bind, Option.bind_some, Option.pure_def]
  by_cases hstart : r'.state = .start
  · refine ⟨.ok, s', by simp [hstart], left, hleft, ?_, ?_⟩
    · rw [hstream]
      simp [outcome, prepared, hstart]
    · intro hnext
      have htype : s'.prepared.type ≠ .nullToken := by simpa [hasNext] using hnext
      rw [if_pos ⟨rfl, htype⟩] at hless
      exact hless
  · by_cases hinvalid : r'.state = .invalid
    · refine ⟨.error, s', by simp [hinvalid], ?_⟩
      rw [hstream]
      simp [outcome, hinvalid]
    · refine ⟨.error, { s' with input := s'.input.raise (some (.prematureEof s'.pos)) },
        by simp [hstart, hinvalid], ?_⟩
      rw [hstream]
      simp [outcome, hstart, hinvalid, Input.raise]

/-! ### All tokens -/

/-- The calls of lcfg_scanner_init and lcfg_scanner_next_token up to the end, or to the first
that fails. -/
def stream : ℕ → Scanner → Option TokenStream
  | 0, _ => none
  | calls + 1, s => do
      let (status, s) ← tokenRead s
      if status = .error then return .failed s.input.error
      else if ¬ hasNext s then return .done s.input.error
      else
        let next ← stream calls s
        return .token s.prepared next

/-- The scanner over the blocks of a file produces the tokens of its text. -/
theorem stream_spec (calls : ℕ) (s : Scanner) (text : List UInt8) (h : Delivers s.input text)
    (hcalls : text.length < calls) :
    stream calls s = some (tokens text ⟨.start, s.prepared.string⟩ s.pos s.input.error) := by
  induction calls generalizing s text with
  | zero => omega
  | succ calls ih =>
    obtain ⟨status, s', hread, hspec⟩ := tokenRead_spec s text h
    rw [stream, hread]
    cases status with
    | error =>
      simp only at hspec
      simp [hspec]
    | ok =>
      obtain ⟨left, hleft, hstream, hless⟩ := hspec
      rw [hstream, prepared]
      by_cases htype : s'.prepared.type = .nullToken
      · simp [hasNext, htype]
      · have hnext : hasNext s' = true := by simp [hasNext, htype]
        have hrest := ih s' left hleft (by have := hless hnext; omega)
        simp [hasNext, htype, hrest]

theorem delivers_new (reads : List ReadResult) (error : Option LcfgError) (text : List UInt8)
    (h : delivered reads = some text) : Delivers (scannerNew reads error).input text :=
  .unread text rfl rfl rfl (List.length_replicate ..) h

end OmapBootUtils.ScannedText
