import OmapBootUtils.LcfgParser

/-!
Reads that fail between two blocks. The status of the fill is not looked at, so the
scanner goes on to look at the next character, finds the buffer still used up and reads
again. One failure before a block changes nothing but the error, which stays set on a
file that is accepted.
-/
namespace OmapBootUtils.RetriedReads

open ConfigHandler LcfgScanner LcfgParser

/-- The reads on the left are those on the right with failures, one at most before each block
that delivers something. -/
inductive Retried : List ReadResult → List ReadResult → Prop
  | nil : Retried [] []
  | data (bytes : List UInt8) (h : bytes.length ≤ bufferSize) (reads reads' : List ReadResult) :
      Retried reads reads' → Retried (.data bytes h :: reads) (.data bytes h :: reads')
  | failed (errno : ℕ) (bytes : List UInt8) (h : bytes.length ≤ bufferSize)
      (reads reads' : List ReadResult) : bytes ≠ [] → Retried reads reads' →
      Retried (.failed errno :: .data bytes h :: reads) (.data bytes h :: reads')

theorem Retried.length_le {reads reads' : List ReadResult} (h : Retried reads reads') :
    reads'.length ≤ reads.length := by
  induction h with
  | nil => rfl
  | data bytes h reads reads' _ ih => simpa using ih
  | failed errno bytes h reads reads' _ _ ih =>
    simp only [List.length_cons]
    omega

/-! ### The input -/

/-- The error is that of the run without failures, or the one of a read. -/
def Masked (e e' : Option LcfgError) : Prop := e = e' ∨ ∃ errno, e = some (.read errno)

/-- Two inputs that differ in the failures to come, and in the error. No failure comes before
the first block. -/
structure Same (s s' : Input) : Prop where
  buffer : s.buffer = s'.buffer
  offset : s.offset = s'.offset
  size : s.size = s'.size
  eof : s.eof = s'.eof
  reads : Retried s.reads s'.reads
  first : s'.size = 0 → s'.eof = false → ∀ errno reads, s.reads ≠ .failed errno :: reads
  error : Masked s.error s'.error

theorem Same.raise {s s' : Input} (h : Same s s') (e : Option LcfgError) :
    Same (s.raise e) (s'.raise e) where
  buffer := h.buffer
  offset := h.offset
  size := h.size
  eof := h.eof
  reads := h.reads
  first := h.first
  error := by
    cases e with
    | none => exact h.error
    | some e => exact Or.inl rfl

/-- The next character is in the buffer: no fill is due, and the file has not ended. -/
structure Settled (s : Input) (c : UInt8) : Prop where
  open_ : s.eof = false
  filled : ¬ (s.size = 0 ∨ s.offset = bufferSize)
  within : ¬ (s.size < bufferSize ∧ (s.offset : ℤ) = s.size)
  byte : s.buffer[s.offset]? = some c

theorem Settled.charEof {s : Input} {c : UInt8} (h : Settled s c) : charEof s = (false, s) := by
  simp only [LcfgScanner.charEof, h.open_, Bool.false_eq_true, if_false, if_neg h.filled,
    if_neg h.within]

theorem Settled.charPeek {s : Input} {b : UInt8} (h : Settled s b) (c : UInt8) :
    charPeek s c = some (b, s) := by
  unfold LcfgScanner.charPeek
  rw [h.charEof]
  simp [h.byte]

theorem Settled.charRead {s : Input} {b : UInt8} (h : Settled s b) (c : UInt8) :
    charRead s c = some (b, { s with offset := s.offset + 1 }) := by
  unfold LcfgScanner.charRead
  rw [h.charEof]
  simp [h.byte]

theorem Settled.raise {s : Input} {c : UInt8} (h : Settled s c) (e : Option LcfgError) :
    Settled (s.raise e) c := ⟨h.open_, h.filled, h.within, h.byte⟩

theorem Settled.same {s s' : Input} {c : UInt8} (h : Settled s' c) (hsame : Same s s') :
    Settled s c where
  open_ := hsame.eof.trans h.open_
  filled := by
    rw [hsame.size, hsame.offset]
    exact h.filled
  within := by
    rw [hsame.size, hsame.offset]
    exact h.within
  byte := by
    rw [hsame.buffer, hsame.offset]
    exact h.byte

theorem Settled.next_same {s s' : Input} {c : UInt8} (h : Settled s' c) (hsame : Same s s') :
    Same { s with offset := s.offset + 1 } { s' with offset := s'.offset + 1 } where
  buffer := hsame.buffer
  offset := by simp [hsame.offset]
  size := hsame.size
  eof := hsame.eof
  reads := hsame.reads
  first hsize := absurd (Or.inl hsize) h.filled
  error := hsame.error

/-- A look at the end of the file, and at the next character if there is one. -/
inductive Look (s s' : Input) : Prop
  | ended (t t' : Input) (h : charEof s = (true, t)) (h' : charEof s' = (true, t'))
      (hsame : Same t t') : Look s s'
  | char (t t' : Input) (h : charEof s = (false, t)) (h' : charEof s' = (false, t'))
      (hpeek : ∀ c, charPeek t' c = none ∨ ∃ b u u', charPeek t c = some (b, u) ∧
        charPeek t' c = some (b, u') ∧ Same u u' ∧ Settled u' b) : Look s s'

/-- The input after a fill with a block that delivers something. -/
def filled (s : Input) (bytes : List UInt8) (reads : List ReadResult) : Input :=
  { s with
    reads := reads, buffer := bytes ++ s.buffer.drop bytes.length, size := bytes.length
    offset := 0 }

/-- The input after a fill that fails. -/
def unfilled (s : Input) (errno : ℕ) (reads : List ReadResult) : Input :=
  { s with reads := reads, size := -1, error := some (.read errno) }

section Fill
variable (s : Input) (h : s.eof = false) (hdue : s.size = 0 ∨ s.offset = bufferSize)
include h

theorem settled_filled (b : UInt8) (bytes : List UInt8) (reads : List ReadResult) :
    Settled (filled s (b :: bytes) reads) b where
  open_ := h
  filled := by
    have hsize : bufferSize = 255 := rfl
    simp only [filled, List.length_cons]
    omega
  within := by
    simp only [filled, List.length_cons]
    omega
  byte := rfl

include hdue

theorem charEof_filled (b : UInt8) (bytes : List UInt8) (hb : (b :: bytes).length ≤ bufferSize)
    (reads : List ReadResult) (hreads : s.reads = .data (b :: bytes) hb :: reads) :
    charEof s = (false, filled s (b :: bytes) reads) := by
  have hfill : bufferFill s = filled s (b :: bytes) reads := by
    simp only [bufferFill, hreads]
    exact if_neg (by simp)
  have hsettled := settled_filled s h b bytes reads
  rw [charEof, h, hfill]
  simp only [Bool.false_eq_true, if_false, if_pos hdue, if_neg hsettled.within, hsettled.open_]

/-- A fill that finds the end of the file. -/
theorem charEof_ended (hreads : s.reads = [] ∨ ∃ hb reads, s.reads = .data [] hb :: reads) :
    charEof s = (true, { s with reads := s.reads.tail, size := 0, eof := true }) := by
  have hfill : bufferFill s = { s with reads := s.reads.tail, size := 0, eof := true } := by
    rcases hreads with hnil | ⟨hb, reads, hdata⟩
    · simp only [bufferFill, hnil, List.tail_nil]
    · simp [bufferFill, hdata]
  rw [charEof, h, hfill]
  simp only [Bool.false_eq_true, if_false, if_pos hdue]
  split <;> rfl

/-- A fill that fails at the end of a block. The character after it is looked for in the
block that comes next. -/
theorem charEof_failed (hoffset : s.offset = bufferSize) (errno : ℕ) (reads : List ReadResult)
    (hreads : s.reads = .failed errno :: reads) :
    charEof s = (false, unfilled s errno reads) := by
  have hfill : bufferFill s = unfilled s errno reads := by
    simp only [bufferFill, hreads, unfilled]
  have hend : ¬ ((unfilled s errno reads).size < bufferSize ∧
      ((unfilled s errno reads).offset : ℤ) = (unfilled s errno reads).size) := by
    simp only [unfilled]
    omega
  have hopen : (unfilled s errno reads).eof = false := h
  rw [charEof, h, hfill]
  simp only [Bool.false_eq_true, if_false, if_pos hdue, if_neg hend, hopen]

end Fill

theorem Same.filled {s s' : Input} (h : Same s s') (b : UInt8) (bytes : List UInt8)
    (reads reads' : List ReadResult) (hreads : Retried reads reads') :
    Same (filled s (b :: bytes) reads) (filled s' (b :: bytes) reads') where
  buffer := by simp only [RetriedReads.filled, h.buffer]
  offset := rfl
  size := rfl
  eof := h.eof
  reads := hreads
  first hsize := by
    simp only [RetriedReads.filled, List.length_cons] at hsize
    omega
  error := h.error

/-- Without a fill both inputs are looked at alike. -/
theorem Same.look_within {s s' : Input} (h : Same s s') (hopen : s'.eof = false)
    (hdue : ¬ (s'.size = 0 ∨ s'.offset = bufferSize)) : Look s s' := by
  have hdues : ¬ (s.size = 0 ∨ s.offset = bufferSize) := by rwa [h.size, h.offset]
  by_cases hend : s'.size < bufferSize ∧ (s'.offset : ℤ) = s'.size
  · have hends : s.size < bufferSize ∧ (s.offset : ℤ) = s.size := by rwa [h.size, h.offset]
    refine .ended { s with eof := true } { s' with eof := true } ?_ ?_ ?_
    · simp only [charEof, h.eof, hopen, Bool.false_eq_true, if_false, if_neg hdues, if_pos hends]
    · simp only [charEof, hopen, Bool.false_eq_true, if_false, if_neg hdue, if_pos hend]
    · exact ⟨h.buffer, h.offset, h.size, rfl, h.reads, fun _ hopen => by simp at hopen,
        h.error⟩
  · have hends : ¬ (s.size < bufferSize ∧ (s.offset : ℤ) = s.size) := by rwa [h.size, h.offset]
    have heof' : charEof s' = (false, s') := by
      simp only [charEof, hopen, Bool.false_eq_true, if_false, if_neg hdue, if_neg hend]
    refine .char s s' ?_ heof' ?_
    · simp only [charEof, h.eof, hopen, Bool.false_eq_true, if_false, if_neg hdues, if_neg hends]
    · intro c
      cases hbyte : s'.buffer[s'.offset]? with
      | none =>
        left
        unfold charPeek
        rw [heof']
        simp [hbyte]
      | some b =>
        have hsettled : Settled s' b := ⟨hopen, hdue, hend, hbyte⟩
        exact Or.inr ⟨b, s, s', (hsettled.same h).charPeek c, hsettled.charPeek c, h, hsettled⟩

/-- The inputs are looked at alike, past a failure if there is one. -/
theorem Same.look {s s' : Input} (h : Same s s') : Look s s' := by
  cases hopen : s'.eof with
  | true =>
    exact .ended s s' (by simp [charEof, h.eof, hopen]) (by simp [charEof, hopen]) h
  | false =>
    by_cases hdue : s'.size = 0 ∨ s'.offset = bufferSize
    case neg => exact h.look_within hopen hdue
    have hopens : s.eof = false := h.eof.trans hopen
    have hdues : s.size = 0 ∨ s.offset = bufferSize := by rwa [h.size, h.offset]
    have hended : (s.reads = [] ∨ ∃ hb reads, s.reads = .data [] hb :: reads) →
        (s'.reads = [] ∨ ∃ hb reads, s'.reads = .data [] hb :: reads) →
        Retried s.reads.tail s'.reads.tail → Look s s' := by
      intro hreads hreads' htail
      exact .ended _ _ (charEof_ended s hopens hdues hreads) (charEof_ended s' hopen hdue hreads')
        ⟨h.buffer, h.offset, rfl, rfl, htail, fun _ hopen => by simp at hopen, h.error⟩
    have hretried := h.reads
    generalize hreads : s.reads = reads at hretried
    generalize hreads' : s'.reads = reads' at hretried
    cases hretried with
    | nil =>
      apply hended (Or.inl hreads) (Or.inl hreads')
      rw [hreads, hreads']
      exact .nil
    | data bytes hb reads reads' htail =>
      cases bytes with
      | nil =>
        apply hended (Or.inr ⟨hb, reads, hreads⟩) (Or.inr ⟨hb, reads', hreads'⟩)
        rw [hreads, hreads']
        exact htail
      | cons b bytes =>
        have hsettled := settled_filled s' hopen b bytes reads'
        have hsame := h.filled b bytes reads reads' htail
        exact .char _ _ (charEof_filled s hopens hdues b bytes hb reads hreads)
          (charEof_filled s' hopen hdue b bytes hb reads' hreads')
          fun c => Or.inr ⟨b, _, _, (hsettled.same hsame).charPeek c, hsettled.charPeek c, hsame,
            hsettled⟩
    | failed errno bytes hb reads reads' hbytes htail =>
      obtain ⟨b, bytes, rfl⟩ := List.exists_cons_of_ne_nil hbytes
      have hsize : s'.size ≠ 0 := fun hzero => h.first hzero hopen errno _ hreads
      have hoffset : s.offset = bufferSize := h.offset.trans (hdue.resolve_left hsize)
      have hsettled := settled_filled s' hopen b bytes reads'
      have hpeek : ∀ c, charPeek (unfilled s errno (.data (b :: bytes) hb :: reads)) c =
          some (b, RetriedReads.filled (unfilled s errno (.data (b :: bytes) hb :: reads))
            (b :: bytes) reads) := by
        intro c
        unfold charPeek
        rw [charEof_filled (unfilled s errno (.data (b :: bytes) hb :: reads)) hopens (Or.inr hoffset) b
          bytes hb reads rfl]
        rfl
      have hsame := h.filled b bytes reads reads' htail
      exact .char _ _ (charEof_failed s hopens hdues hoffset errno _ hreads)
        (charEof_filled s' hopen hdue b bytes hb reads' hreads') fun c =>
          Or.inr ⟨b, _, _, hpeek c, hsettled.charPeek c, ⟨hsame.buffer, rfl, rfl, hsame.eof, htail,
            hsame.first, Or.inr ⟨errno, rfl⟩⟩, hsettled⟩

/-! ### The scanner -/

/-- Two scanners at the same place with the same token. -/
structure SameScanner (s s' : Scanner) : Prop where
  input : Same s.input s'.input
  pos : s.pos = s'.pos
  prepared : s.prepared = s'.prepared

/-- The loop goes the same way, with at least as many rounds. -/
theorem tokenLoop_same (rounds rounds' : ℕ) (s s' : Scanner) (r : Reading) (c : UInt8)
    (h : SameScanner s s') (hrounds : rounds' ≤ rounds) (r' : Reading) (t' : Scanner)
    (hrun : tokenLoop rounds' s' r c = some (r', t')) :
    ∃ t, tokenLoop rounds s r c = some (r', t) ∧ SameScanner t t' := by
  induction rounds' generalizing rounds s s' r c with
  | zero => cases hrun
  | succ rounds' ih =>
    obtain ⟨rounds, rfl⟩ := Nat.exists_eq_succ_of_ne_zero (by omega : rounds ≠ 0)
    have goOn : ∀ (v v' : Scanner) (fed : Fed) (b : UInt8),
        (if fed.type ≠ .nullToken ∨ fed.reading.state = .invalid then some (fed.reading, v')
          else tokenLoop rounds' v' fed.reading b) = some (r', t') → SameScanner v v' →
        ∃ t, (if fed.type ≠ .nullToken ∨ fed.reading.state = .invalid then some (fed.reading, v)
          else tokenLoop rounds v fed.reading b) = some (r', t) ∧ SameScanner t t' := by
      intro v v' fed b hgo hsame
      split at hgo
      case isTrue hstop =>
        obtain ⟨rfl, rfl⟩ := Prod.mk.inj (Option.some.inj hgo)
        exact ⟨v, if_pos hstop, hsame⟩
      case isFalse hstop =>
        rw [if_neg hstop]
        exact ih rounds v v' fed.reading b hsame (by omega) hgo
    rw [tokenLoop] at hrun ⊢
    cases h.input.look with
    | ended u u' heof heof' hsame =>
      rw [heof'] at hrun
      rw [heof]
      simp only [if_true] at hrun ⊢
      obtain ⟨rfl, rfl⟩ := Prod.mk.inj (Option.some.inj hrun)
      exact ⟨_, rfl, hsame, h.pos, h.prepared⟩
    | char u u' heof heof' hpeek =>
      rw [heof'] at hrun
      rw [heof]
      simp only [Bool.false_eq_true, if_false] at hrun ⊢
      rcases hpeek c with hnone | ⟨b, v, v', hb, hb', hsame, hsettled⟩
      · rw [hnone] at hrun
        cases hrun
      · rw [hb'] at hrun
        rw [hb, h.pos]
        simp only [Option.bind_eq_bind, Option.bind_some] at hrun ⊢
        have hraised := hsame.raise (feed s'.pos b r).raised
        have hsettled' := hsettled.raise (feed s'.pos b r).raised
        by_cases hconsume : (feed s'.pos b r).consume = true
        · rw [if_pos hconsume, hsettled'.charRead b] at hrun
          rw [if_pos hconsume, (hsettled'.same hraised).charRead b]
          simp only [Option.bind_some, Option.pure_def] at hrun ⊢
          exact goOn _ _ _ _ hrun ⟨hsettled'.next_same hraised, rfl, rfl⟩
        · rw [if_neg hconsume] at hrun
          rw [if_neg hconsume]
          simp only [Option.bind_some, Option.pure_def] at hrun ⊢
          exact goOn _ _ _ _ hrun ⟨hraised, rfl, rfl⟩

theorem SameScanner.left_le {s s' : Scanner} (h : SameScanner s s') :
    s'.input.left ≤ s.input.left := by
  have hlen := h.input.reads.length_le
  unfold Input.left
  exact Nat.mul_le_mul_right _ (by omega)

theorem SameScanner.raise {s s' : Scanner} (h : SameScanner s s') (e : Option LcfgError) :
    SameScanner { s with input := s.input.raise e } { s' with input := s'.input.raise e } :=
  ⟨h.input.raise e, h.pos, h.prepared⟩

/-- A call prepares the same token, or fails alike. -/
theorem tokenRead_same (s s' : Scanner) (h : SameScanner s s') (status : LcfgStatus)
    (t' : Scanner) (hrun : tokenRead s' = some (status, t')) :
    ∃ t, tokenRead s = some (status, t) ∧ SameScanner t t' := by
  have hleft := h.left_le
  unfold tokenRead at hrun ⊢
  obtain ⟨⟨r, u'⟩, hloop', hstatus⟩ := Option.bind_eq_some_iff.mp hrun
  obtain ⟨u, hloop, hsame⟩ := tokenLoop_same (s.input.left + 1) (s'.input.left + 1)
    { s with prepared := { s.prepared with type := .nullToken } }
    { s' with prepared := { s'.prepared with type := .nullToken } }
    ⟨.start, s'.prepared.string⟩ 0 ⟨h.input, h.pos, by rw [h.prepared]⟩ (by omega) r u' hloop'
  rw [h.prepared] at hloop ⊢
  simp only [hloop, Option.bind_eq_bind, Option.bind_some, Option.pure_def] at hstatus ⊢
  split at hstatus
  case isTrue hstart =>
    split at hstatus
    case isTrue hinvalid =>
      obtain ⟨rfl, rfl⟩ := Prod.mk.inj (Option.some.inj hstatus)
      refine ⟨_, ?_, hsame.raise (some (.prematureEof u'.pos))⟩
      rw [if_pos hstart, if_pos hinvalid, hsame.pos]
    case isFalse hinvalid =>
      obtain ⟨rfl, rfl⟩ := Prod.mk.inj (Option.some.inj hstatus)
      exact ⟨u, by rw [if_pos hstart, if_neg hinvalid], hsame⟩
  case isFalse hstart =>
    obtain ⟨rfl, rfl⟩ := Prod.mk.inj (Option.some.inj hstatus)
    exact ⟨u, by rw [if_neg hstart], hsame⟩

theorem nextToken_same (s s' : Scanner) (h : SameScanner s s') (tok tok' : Token)
    (status : LcfgStatus) (t' : Scanner) (hrun : nextToken s' tok = some (status, tok', t')) :
    ∃ t, nextToken s tok = some (status, tok', t) ∧ SameScanner t t' := by
  have hhas : hasNext s = hasNext s' := by rw [hasNext, hasNext, h.prepared]
  unfold nextToken at hrun ⊢
  rw [hhas]
  by_cases hnext : hasNext s' = true
  · rw [if_neg (not_not.mpr hnext)] at hrun ⊢
    obtain ⟨⟨status', u'⟩, hread, heq⟩ := Option.map_eq_some_iff.mp hrun
    simp only [Prod.mk.injEq] at heq
    obtain ⟨rfl, rfl, rfl⟩ := heq
    obtain ⟨u, hu, hsame⟩ := tokenRead_same s s' h status' u' hread
    exact ⟨u, by rw [hu, Option.map_some, h.prepared], hsame⟩
  · rw [if_pos hnext] at hrun ⊢
    simp only [Option.some.injEq, Prod.mk.injEq] at hrun
    obtain ⟨rfl, rfl, rfl⟩ := hrun
    exact ⟨_, rfl, h.raise _⟩

/-! ### The parser -/

/-- The same status and values; the error may be that of a read. -/
structure SameParsed (parsed parsed' : Parsed) : Prop where
  status : parsed.status = parsed'.status
  values : parsed.values = parsed'.values
  error : Masked parsed.error parsed'.error

theorem parseLoop_same (rounds rounds' : ℕ) (p : Pda) (tok : Token) (s s' : Scanner)
    (h : SameScanner s s') (hrounds : rounds' ≤ rounds) (parsed' : Parsed)
    (hrun : parseLoop rounds' p tok s' = some parsed') :
    ∃ parsed, parseLoop rounds p tok s = some parsed ∧ SameParsed parsed parsed' := by
  induction rounds' generalizing rounds p tok s s' with
  | zero => cases hrun
  | succ rounds' ih =>
    obtain ⟨rounds, rfl⟩ := Nat.exists_eq_succ_of_ne_zero (by omega : rounds ≠ 0)
    have hhas : hasNext s = hasNext s' := by rw [hasNext, hasNext, h.prepared]
    rw [parseLoop] at hrun ⊢
    rw [hhas]
    by_cases hmore : hasNext s' ∧ p.top.s ≠ .invalid
    · rw [if_pos hmore] at hrun ⊢
      obtain ⟨⟨status, tok', t'⟩, hnext', hrest⟩ := Option.bind_eq_some_iff.mp hrun
      obtain ⟨t, hnext, hsame⟩ := nextToken_same s s' h tok tok' status t' hnext'
      rw [hnext]
      simp only [Option.bind_eq_bind, Option.bind_some] at hrest ⊢
      by_cases herror : status = .error
      · rw [if_pos herror] at hrest ⊢
        obtain rfl := Option.some.inj hrest
        exact ⟨_, rfl, rfl, rfl, hsame.input.error⟩
      · rw [if_neg herror] at hrest ⊢
        obtain ⟨⟨p', raised⟩, hhandle, hloop⟩ := Option.bind_eq_some_iff.mp hrest
        rw [hhandle]
        exact ih rounds p' tok' _ _ (hsame.raise raised) (by omega) hloop
    · rw [if_neg hmore] at hrun ⊢
      obtain rfl := Option.some.inj hrun
      exact ⟨_, rfl, rfl, rfl, h.input.error⟩

/-- Reads that fail between two blocks of a file, never twice in a row, change neither whether
the file is accepted nor its values. The error is that of the file without the failures, or
that of a read. -/
theorem failed_reads_retried (first : List UInt8) (hfirst : first.length ≤ bufferSize)
    (reads reads' : List ReadResult) (h : Retried reads reads') (parsed' : Parsed)
    (hrun : parserRun (.inr (.data first hfirst :: reads')) = some parsed') :
    ∃ parsed, parserRun (.inr (.data first hfirst :: reads)) = some parsed ∧
      SameParsed parsed parsed' := by
  have hread : ∀ errno rest,
      ReadResult.data first hfirst :: reads ≠ ReadResult.failed errno :: rest := by simp
  have hnew : SameScanner (scannerNew (.data first hfirst :: reads) none)
      (scannerNew (.data first hfirst :: reads') none) :=
    ⟨⟨rfl, rfl, rfl, rfl, .data first hfirst reads reads' h, fun _ _ => hread, Or.inl rfl⟩,
      rfl, rfl⟩
  obtain ⟨⟨status, t'⟩, hinit', hrest⟩ := Option.bind_eq_some_iff.mp hrun
  obtain ⟨t, hinit, hsame⟩ := tokenRead_same _ _ hnew status t' hinit'
  have hleft := hsame.left_le
  simp only [parserRun, parserParse, scannerInit, hinit, Option.bind_eq_bind, Option.bind_some]
  simp only at hrest
  by_cases herror : status = .error
  · rw [if_pos herror] at hrest ⊢
    obtain rfl := Option.some.inj hrest
    exact ⟨_, rfl, rfl, rfl, hsame.input.error⟩
  · rw [if_neg herror] at hrest ⊢
    exact parseLoop_same _ _ _ _ t t' hsame (by omega) parsed' hrest

/-- A setting at the end of a full block. -/
def fullBlock : List UInt8 := List.replicate 250 0x20 ++ [0x61, 0x3D, 0x22, 0x62, 0x22]

theorem fullBlock_length : fullBlock.length ≤ bufferSize := by
  rw [fullBlock, List.length_append, List.length_replicate]
  decide

theorem failed_reads_retried_block : ∃ parsed,
    parserRun (.inr [.data fullBlock fullBlock_length, .failed 4, .data [0x0A] (by decide)]) =
      some parsed ∧ SameParsed parsed ⟨.ok, [([0x61], [0x62])], none⟩ :=
  failed_reads_retried fullBlock fullBlock_length [.failed 4, .data [0x0A] (by decide)]
    [.data [0x0A] (by decide)] (.failed 4 [0x0A] (by decide) [] [] (by decide) .nil)
    ⟨.ok, [([0x61], [0x62])], none⟩ (by decide +kernel)

/-- The file is accepted, and the error set. -/
example : parserRun (.inr [.data fullBlock fullBlock_length, .failed 4, .data [0x0A] (by decide)]) =
    some ⟨.ok, [([0x61], [0x62])], some (.read 4)⟩ := by
  decide +kernel

end OmapBootUtils.RetriedReads
