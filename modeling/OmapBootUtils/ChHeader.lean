import OmapBootUtils.ChSections

/-!
Reading a configuration header back. A reader walks the table in 32-byte steps
to its end; what fillup_ch writes is described byte by byte, which gives both the
round trip of every field and what the header depends on.
-/
namespace OmapBootUtils.ChHeader

open ByteMemory CString PackedLayout RecordChain ChSections

/-! ### Reading the table of contents -/

/-- The entry at `a`, or the end of the table. -/
def readEntry (ch : Memory) (a : ℕ) : Option (Reading TocEntry) :=
  if readBytes ch a chToc.size = tocEnd then some (.stop (a + chToc.size))
  else (cString ch (a + chToc.offset "name") 12).map fun name =>
    .record ⟨readU32 ch (a + chToc.offset "start"), readU32 ch (a + chToc.offset "size"), name⟩
      (a + chToc.size)

/-- Walk the table from offset 0; sixteen entries fill the buffer. -/
def readToc (ch : Memory) : Option (List TocEntry × ℕ) := walk (readEntry ch) 16 0

/-- A name that fits its field with its NUL. -/
def Named (e : TocEntry) : Prop := (0 : UInt8) ∉ e.name ∧ e.name.length < 12

def tocFormat : Format TocEntry where
  width _ := chToc.size
  Holds ch a e := Named e ∧ ∀ i, i < chToc.size → ch (a + i) = e.memory i
  holds_congr s t a e h hst :=
    ⟨h.1, fun i hi => (hst (a + i) (by omega) (by omega)).symm.trans (h.2 i hi)⟩

theorem chToc_start : chToc.offset "start" = 0 := by decide

theorem chToc_size : chToc.offset "size" = 4 := by decide

theorem chToc_name : chToc.offset "name" = 20 := by decide

theorem chToc_width : chToc.size = 32 := by decide

theorem readEntry_holds (ch : Memory) (a : ℕ) (e : TocEntry) (h : tocFormat.Holds ch a e) :
    readEntry ch a = some (.record e (a + tocFormat.width e)) := by
  obtain ⟨⟨hzero, hlen⟩, hbytes⟩ := h
  rw [chToc_width] at hbytes
  have hterm : (terminated e.name).length = e.name.length + 1 := by simp [terminated]
  have hmem : ∀ i, (i < 20 ∨ 20 + (e.name.length + 1) ≤ i) →
      e.memory i = putU32 (putU32 (fun _ => 0) 0 e.start) 4 e.size i := by
    intro i hi
    rw [TocEntry.memory, chToc_start, chToc_size, chToc_name]
    exact putBytes_outside _ _ _ _ (by omega)
  -- the reserved bytes are zero, so the entry is not the end of the table
  have hreserved : ch (a + 8) = 0 := by
    rw [hbytes 8 (by omega), hmem 8 (by omega), putU32_outside _ _ _ _ (by omega),
      putU32_outside _ _ _ _ (by omega)]
  have hne : readBytes ch a chToc.size ≠ tocEnd := by
    intro heq
    have hat := congrArg (fun l => l[8]?) heq
    simp [readBytes, chToc_width, tocEnd, hreserved] at hat
  have hname : cString ch (a + 20) 12 = some e.name := by
    refine cString_shift e.memory ch 20 (a + 20) 12 e.name ?_ fun i hi => ?_
    · rw [TocEntry.memory, chToc_name]
      exact cString_putBytes _ 20 12 e.name hzero hlen
    · rw [Nat.add_assoc, hbytes (20 + i) (by omega)]
  have hstart : readU32 ch (a + 0) = e.start := by
    rw [readU32_shift ch (putU32 (putU32 (fun _ => 0) 0 e.start) 4 e.size) (a + 0) 0 fun i hi => by
        rw [Nat.add_zero, Nat.zero_add, hbytes i (by omega), hmem i (by omega)],
      readU32_putU32_other _ _ _ _ (by omega), readU32_putU32]
  have hsize : readU32 ch (a + 4) = e.size := by
    rw [readU32_shift ch (putU32 (putU32 (fun _ => 0) 0 e.start) 4 e.size) (a + 4) 4 fun i hi => by
        rw [Nat.add_assoc, hbytes (4 + i) (by omega), hmem (4 + i) (by omega)],
      readU32_putU32]
  rw [readEntry, if_neg hne, chToc_start, chToc_size, chToc_name, hname, hstart, hsize]
  rfl

/-! ### What fillup_ch writes -/

/-- A kind whose name fits its field and whose copy lies behind the table. -/
def Fits (k : SectionKind) : Prop :=
  (bytesOf k.name).all (· ≠ 0) ∧ (bytesOf k.name).length < 12 ∧ 0xA0 ≤ k.start ∧
    k.size ≤ k.copied ∧ k.start + k.copied ≤ chBufferSize

instance (k : SectionKind) : Decidable (Fits k) := by
  unfold Fits
  infer_instance

theorem Fits.named {k : SectionKind} (h : Fits k) : Named k.entry := by
  refine ⟨?_, h.2.1⟩
  intro hmem
  simpa using List.all_eq_true.mp h.1 0 hmem

theorem Fits.afterToc {k : SectionKind} (h : Fits k) : 0xA0 ≤ k.start := h.2.2.1

theorem Fits.size_le {k : SectionKind} (h : Fits k) : k.size ≤ k.copied := h.2.2.2.1

theorem Fits.inside {k : SectionKind} (h : Fits k) :
    k.start + k.copied ≤ chBufferSize := h.2.2.2.2

/-- The buffer and toc_idx once the sections `ss` have been put. -/
structure Filled (ss : List Section) (c : Cursor) : Prop where
  pos : c.pos = 32 * ss.length
  laid : tocFormat.Laid c.mem 0 (ss.map fun s => s.entry)
  held : ∀ s ∈ ss, ∀ i, i < s.copied → c.mem (s.start + i) = s.contents i
  blank : ∀ j, j < chBufferSize → 32 * ss.length ≤ j →
    (∀ s ∈ ss, j < s.start ∨ s.start + s.copied ≤ j) → c.mem j = 0

theorem span_tocFormat (es : List TocEntry) : tocFormat.span es = 32 * es.length := by
  induction es with
  | nil => rfl
  | cons e es ih =>
    rw [Format.span_cons, ih, List.length_cons, show tocFormat.width e = 32 from chToc_width]
    omega

theorem Filled.start (chBuffer : Memory) :
    Filled [] ⟨0, putBytes chBuffer 0 (List.replicate chBufferSize 0)⟩ where
  pos := rfl
  laid := trivial
  held s hs := by simp at hs
  blank j hj _ _ := by
    have h := putBytes_at chBuffer 0 (List.replicate chBufferSize 0) j (by simpa using hj)
    simpa using h

/-- Putting a section writes its entry and its contents, nothing else. -/
theorem putSection_inside (s : Section) (c : Cursor) (hbefore : c.pos + 32 ≤ s.start)
    (hin : s.start + s.copied ≤ chBufferSize) :
    ∃ mem, putSection s c = some ⟨c.pos + 32, mem⟩ ∧
      (∀ i, i < s.copied → mem (s.start + i) = s.contents i) ∧
      (∀ i, i < 32 → mem (c.pos + i) = s.entry.memory i) ∧
      ∀ j, j < c.pos ∨ c.pos + 32 ≤ j → j < s.start ∨ s.start + s.copied ≤ j →
        mem j = c.mem j := by
  have hentry : (readBytes s.entry.memory 0 chToc.size).length = 32 := by simp [chToc_width]
  have hcontents : (readBytes s.contents 0 s.copied).length = s.copied := by simp
  have hput := Cursor.put_inside chBufferSize c 0 (readBytes s.entry.memory 0 chToc.size)
    (by rw [hentry]; omega)
  rw [Nat.add_zero] at hput
  have hcopy := writeBytes_inside chBufferSize
    (putBytes c.mem c.pos (readBytes s.entry.memory 0 chToc.size)) s.start
    (readBytes s.contents 0 s.copied) (by rw [hcontents]; exact hin)
  refine ⟨putBytes (putBytes c.mem c.pos (readBytes s.entry.memory 0 chToc.size)) s.start
    (readBytes s.contents 0 s.copied), ?_, ?_, ?_, ?_⟩
  · rw [putSection, hput]
    simp only [Option.bind_eq_bind, Option.bind_some, hcopy]
    rfl
  · intro i hi
    rw [putBytes_at _ _ _ i (by rw [hcontents]; exact hi)]
    simp
  · intro i hi
    rw [putBytes_outside _ _ _ _ (by omega), putBytes_at _ _ _ i (by rw [hentry]; exact hi)]
    simp
  · intro j hout hj
    rw [putBytes_outside _ _ _ j (by rw [hcontents]; exact hj),
      putBytes_outside _ _ _ j (by rw [hentry]; exact hout)]

/-- Putting a section behind all earlier ones keeps what they wrote. -/
theorem Filled.put {ss : List Section} {c : Cursor} (h : Filled ss c) (s : Section)
    (hs : Fits s.toSectionKind) (hcount : ss.length ≤ 3) (hss : ∀ t ∈ ss, Fits t.toSectionKind)
    (hafter : ∀ t ∈ ss, t.start + t.copied ≤ s.start) :
    ∃ c', putSection s c = some c' ∧ Filled (ss ++ [s]) c' := by
  have hpos := h.pos
  have htoc := hs.afterToc
  obtain ⟨mem, hput, hcontents, hentry, hother⟩ := putSection_inside s c (by omega) hs.inside
  refine ⟨_, hput, ?_, ?_, ?_, ?_⟩
  · simp only [List.length_append, List.length_cons, List.length_nil]
    omega
  · rw [List.map_append]
    refine tocFormat.laid_append _ 0 _ _ ?_ ⟨⟨hs.named, ?_⟩, trivial⟩
    · apply tocFormat.laid_congr c.mem _ 0 _ h.laid
      intro j _ hj
      rw [span_tocFormat, List.length_map] at hj
      exact (hother j (by omega) (by omega)).symm
    · intro i hi
      rw [span_tocFormat, List.length_map, Nat.zero_add, ← hpos]
      exact hentry i (by rwa [chToc_width] at hi)
  · intro t ht i hi
    rcases List.mem_append.mp ht with ht | ht
    · have hlow := (hss t ht).afterToc
      have hend := hafter t ht
      exact (hother (t.start + i) (by omega) (by omega)).trans (h.held t ht i hi)
    · rw [List.mem_singleton] at ht
      subst ht
      exact hcontents i hi
  · intro j hj hlow hout
    rw [List.length_append, List.length_singleton] at hlow
    exact (hother j (by omega) (hout s (by simp))).trans
      (h.blank j hj (by omega) fun t ht => hout t (by simp [ht]))

/-- One section ends before the next one starts. -/
def Before (s t : Section) : Prop := s.start + s.copied ≤ t.start

instance (s t : Section) : Decidable (Before s t) := by
  unfold Before
  infer_instance

/-- Putting sections in order, the invalid ones skipped. -/
theorem Filled.putAll (ss done : List Section) (c : Cursor) (h : Filled done c)
    (hfits : ∀ s ∈ done ++ ss, Fits s.toSectionKind) (hcount : done.length + ss.length ≤ 4)
    (horder : (done ++ ss).Pairwise Before) :
    ∃ c', ss.foldlM (fun c s => putIfValid s c) c = some c' ∧
      Filled (done ++ ss.filter fun s => s.valid ≠ 0) c' := by
  induction ss generalizing done c with
  | nil => exact ⟨c, rfl, by simpa using h⟩
  | cons s ss ih =>
    rw [List.length_cons] at hcount
    by_cases hv : s.valid = 0
    · obtain ⟨c', hc', hfilled⟩ := ih done c h (fun t ht => hfits t (by simp at ht ⊢; tauto))
        (by omega) (horder.sublist (by simp))
      refine ⟨c', ?_, by simpa [hv] using hfilled⟩
      rw [List.foldlM_cons, putIfValid, if_pos hv]
      exact hc'
    · have hbefore : ∀ t ∈ done, t.start + t.copied ≤ s.start := fun t ht =>
        (List.pairwise_append.mp horder).2.2 t ht s (by simp)
      obtain ⟨c₁, hc₁, h₁⟩ := h.put s (hfits s (by simp)) (by omega)
        (fun t ht => hfits t (by simp [ht])) hbefore
      obtain ⟨c', hc', hfilled⟩ := ih (done ++ [s]) c₁ h₁
        (fun t ht => hfits t (by simpa using ht)) (by simp; omega) (by simpa using horder)
      refine ⟨c', ?_, by simpa [hv] using hfilled⟩
      rw [List.foldlM_cons, putIfValid, if_neg hv, hc₁]
      exact hc'

/-- A finished header: the table with its end, the sections, and zeros elsewhere. -/
structure Header (ss : List Section) (ch : Memory) : Prop where
  laid : tocFormat.Laid ch 0 (ss.map fun s => s.entry)
  closed : readBytes ch (32 * ss.length) chToc.size = tocEnd
  held : ∀ s ∈ ss, ∀ i, i < s.copied → ch (s.start + i) = s.contents i
  blank : ∀ j, j < chBufferSize → 32 * (ss.length + 1) ≤ j →
    (∀ s ∈ ss, j < s.start ∨ s.start + s.copied ≤ j) → ch j = 0

theorem Filled.close {ss : List Section} {c : Cursor} (h : Filled ss c) (hcount : ss.length ≤ 4)
    (hss : ∀ s ∈ ss, Fits s.toSectionKind) :
    ∃ ch, c.put chBufferSize 0 tocEnd = some ⟨c.pos, ch⟩ ∧ Header ss ch := by
  have hpos := h.pos
  have hbuf : chBufferSize = 512 := rfl
  have hend : tocEnd.length = 32 := by simp [tocEnd, chToc_width]
  have hout : ∀ j, j < c.pos ∨ c.pos + 32 ≤ j → putBytes c.mem (c.pos + 0) tocEnd j = c.mem j := by
    intro j hj
    exact putBytes_outside _ _ _ j (by rw [hend]; omega)
  refine ⟨_, Cursor.put_inside chBufferSize c 0 tocEnd (by rw [hend]; omega), ?_, ?_, ?_, ?_⟩
  · apply tocFormat.laid_congr c.mem _ 0 _ h.laid
    intro j _ hj
    rw [span_tocFormat, List.length_map] at hj
    exact (hout j (by omega)).symm
  · rw [← hpos, chToc_width, ← hend]
    exact readBytes_putBytes c.mem c.pos tocEnd
  · intro s hs i hi
    have htoc := (hss s hs).afterToc
    exact (hout (s.start + i) (by omega)).trans (h.held s hs i hi)
  · intro j hj hlow hsections
    exact (hout j (by omega)).trans (h.blank j hj (by omega) hsections)

theorem tocFormat_laid_unique (ch ch' : Memory) (es : List TocEntry) (a j : ℕ)
    (h : tocFormat.Laid ch a es) (h' : tocFormat.Laid ch' a es) (hj : a ≤ j)
    (hlt : j < a + tocFormat.span es) : ch j = ch' j := by
  induction es generalizing a with
  | nil =>
    rw [Format.span_nil] at hlt
    omega
  | cons e es ih =>
    rw [Format.span_cons] at hlt
    by_cases hfirst : j < a + tocFormat.width e
    · obtain ⟨i, rfl⟩ := Nat.exists_eq_add_of_le hj
      have hi : i < chToc.size := Nat.lt_of_add_lt_add_left hfirst
      exact (h.1.2 i hi).trans (h'.1.2 i hi).symm
    · exact ih (a + tocFormat.width e) h.2 h'.2 (by omega) (by omega)

/-- The sections determine every byte of the header. -/
theorem Header.bytes_eq {ss : List Section} {ch ch' : Memory} (h : Header ss ch)
    (h' : Header ss ch') (j : ℕ) (hj : j < chBufferSize) : ch j = ch' j := by
  by_cases hentry : j < 32 * ss.length
  · apply tocFormat_laid_unique ch ch' _ 0 j h.laid h'.laid (Nat.zero_le j)
    rw [span_tocFormat, List.length_map]
    omega
  · by_cases hend : j < 32 * (ss.length + 1)
    · obtain ⟨i, rfl⟩ := Nat.exists_eq_add_of_le (Nat.not_lt.mp hentry)
      apply eq_of_readBytes_eq ch ch' _ _ chToc.size i (h.closed.trans h'.closed.symm)
      rw [chToc_width]
      omega
    · by_cases hsection : ∃ s ∈ ss, s.start ≤ j ∧ j < s.start + s.copied
      · obtain ⟨s, hs, hstart, hlt⟩ := hsection
        obtain ⟨i, rfl⟩ := Nat.exists_eq_add_of_le hstart
        exact (h.held s hs i (by omega)).trans (h'.held s hs i (by omega)).symm
      · have houtside : ∀ s ∈ ss, j < s.start ∨ s.start + s.copied ≤ j := by
          intro s hs
          by_contra hin
          exact hsection ⟨s, hs, by omega, by omega⟩
        rw [h.blank j hj (by omega) houtside, h'.blank j hj (by omega) houtside]

variable (p : Platform)

/-- The four sections in the order of fillup_ch. -/
def sections : List Section :=
  [settingsSection p, ramSection p, flashSection p, mmcsdSection p]

/-- The sections whose valid byte is set. -/
def present : List Section := (sections p).filter fun s => s.valid ≠ 0

theorem sections_fit : ∀ s ∈ sections p, Fits s.toSectionKind := by
  have hkinds : ∀ k ∈ [settingsKind, ramKind, flashKind, mmcsdKind], Fits k := by decide
  intro s hs
  apply hkinds
  simp only [sections, List.mem_cons, List.not_mem_nil, or_false] at hs ⊢
  rcases hs with rfl | rfl | rfl | rfl
  · exact Or.inl rfl
  · exact Or.inr (Or.inl rfl)
  · exact Or.inr (Or.inr (Or.inl rfl))
  · exact Or.inr (Or.inr (Or.inr rfl))

theorem sections_before : (sections p).Pairwise Before := by
  have hkinds : [settingsKind, ramKind, flashKind, mmcsdKind].Pairwise
      fun k l => k.start + k.copied ≤ l.start := by decide
  have hmap : (sections p).map Section.toSectionKind =
      [settingsKind, ramKind, flashKind, mmcsdKind] := rfl
  rw [← hmap, List.pairwise_map] at hkinds
  exact hkinds

theorem present_sublist : List.Sublist (present p) (sections p) := List.filter_sublist

theorem present_fits (s : Section) (h : s ∈ present p) : Fits s.toSectionKind :=
  sections_fit p s ((present_sublist p).subset h)

theorem present_before : (present p).Pairwise Before :=
  (sections_before p).sublist (present_sublist p)

theorem present_length : (present p).length ≤ 4 := (present_sublist p).length_le

variable (chBuffer : Memory)

theorem fillupCh_eq (hvalid : (settingsSection p).valid ≠ 0) :
    fillupCh p chBuffer =
      (((sections p).foldlM (fun c s => putIfValid s c)
        ⟨0, putBytes chBuffer 0 (List.replicate chBufferSize 0)⟩).bind fun c =>
          c.put chBufferSize 0 tocEnd).map fun c => (c.mem, 0) := by
  have hfirst : ∀ c, putIfValid (settingsSection p) c = putSection (settingsSection p) c :=
    fun c => by rw [putIfValid, if_neg hvalid]
  rw [fillupCh, if_neg hvalid]
  simp only [sections, List.foldlM_cons, List.foldlM_nil, hfirst, Option.bind_eq_bind,
    Option.bind_assoc, Option.pure_def, Option.bind_some, Option.map_eq_bind]
  rfl

/-- fillup_ch succeeds and leaves the header of the valid sections. -/
theorem fillupCh_header (hvalid : (settingsSection p).valid ≠ 0) :
    ∃ ch, fillupCh p chBuffer = some (ch, 0) ∧ Header (present p) ch := by
  obtain ⟨c, hc, hfilled⟩ := Filled.putAll (sections p) [] _ (Filled.start chBuffer)
    (by simpa using sections_fit p) (by simp [sections]) (by simpa using sections_before p)
  have hpresent : Filled (present p) c := hfilled
  obtain ⟨ch, hch, hheader⟩ := hpresent.close (present_length p) (present_fits p)
  refine ⟨ch, ?_, hheader⟩
  rw [fillupCh_eq p chBuffer hvalid, hc, Option.bind_some, hch]
  rfl

/-- fillup_ch never writes outside its buffer. -/
theorem fillupCh_isSome : ∃ ch ret, fillupCh p chBuffer = some (ch, ret) := by
  by_cases hvalid : (settingsSection p).valid = 0
  · exact ⟨chBuffer, 1, by rw [fillupCh, if_pos hvalid]⟩
  · obtain ⟨ch, hch, _⟩ := fillupCh_header p chBuffer hvalid
    exact ⟨ch, 0, hch⟩

/-! ### Round trip -/

theorem Header.readToc_eq {ss : List Section} {ch : Memory} (h : Header ss ch)
    (hcount : ss.length ≤ 4) :
    readToc ch = some (ss.map fun s => s.entry, 32 * (ss.length + 1)) := by
  have hspan : 0 + tocFormat.span (ss.map fun s => s.entry) = 32 * ss.length := by
    rw [span_tocFormat, List.length_map, Nat.zero_add]
  refine walk_laid tocFormat ch (readEntry ch) (readEntry_holds ch) _ 0 _ h.laid ?_ 16
    (by rw [List.length_map]; omega)
  rw [hspan, readEntry, if_pos h.closed, chToc_width, Nat.mul_add, Nat.mul_one]

/-- The section lies in the header byte for byte, and so does each of its fields. -/
structure ReadBack (ch : Memory) (s : Section) : Prop where
  inside : s.start + s.size ≤ chBufferSize
  bytes : readBytes ch s.start s.size = readBytes s.contents 0 s.size
  fields : ∀ f ∈ s.layout, readBytes ch (s.start + s.layout.offset f.name) f.width =
    readBytes s.contents (s.layout.offset f.name) f.width

theorem kinds_distinct :
    ∀ k ∈ [settingsKind, ramKind, flashKind, mmcsdKind], k.layout.Distinct := by
  decide +kernel

theorem layout_distinct (s : Section) (h : s ∈ sections p) : s.layout.Distinct := by
  simp only [sections, List.mem_cons, List.not_mem_nil, or_false] at h
  apply kinds_distinct s.toSectionKind
  rcases h with rfl | rfl | rfl | rfl <;> simp [settingsSection, ramSection, flashSection,
    mmcsdSection]

theorem Header.readBack {ch : Memory} (h : Header (present p) ch) (s : Section)
    (hs : s ∈ present p) : ReadBack ch s := by
  have hfits := present_fits p s hs
  have hsize := hfits.size_le
  have hheld := h.held s hs
  refine ⟨by have := hfits.inside; omega, ?_, ?_⟩
  · apply readBytes_shift
    intro i hi
    rw [Nat.zero_add]
    exact hheld i (by omega)
  · intro f hf
    have hfield := Layout.offset_add_width_le s.layout
      (layout_distinct p s ((present_sublist p).subset hs)) f hf
    have hle : s.layout.size = s.size := rfl
    apply readBytes_shift
    intro i hi
    rw [Nat.add_assoc]
    exact hheld (s.layout.offset f.name + i) (by omega)

/-- Walking the table finds the valid sections in order; their ranges lie in the
buffer, apart from each other and from the table, and hold the structures. -/
theorem header_round_trip (hvalid : (settingsSection p).valid ≠ 0) :
    ∃ ch, fillupCh p chBuffer = some (ch, 0) ∧
      readToc ch = some ((present p).map fun s => s.entry, 32 * ((present p).length + 1)) ∧
      (∀ s ∈ present p, ReadBack ch s ∧ 32 * ((present p).length + 1) ≤ s.start) ∧
      (present p).Pairwise fun s t => s.start + s.size ≤ t.start := by
  obtain ⟨ch, hch, hheader⟩ := fillupCh_header p chBuffer hvalid
  refine ⟨ch, hch, hheader.readToc_eq (present_length p), ?_, ?_⟩
  · intro s hs
    have hcount := present_length p
    have htoc := (present_fits p s hs).afterToc
    exact ⟨hheader.readBack p s hs, by omega⟩
  · refine List.Pairwise.imp_of_mem ?_ (present_before p)
    intro s t hs _ hbefore
    have hsize := (present_fits p s hs).size_le
    unfold Before at hbefore
    omega

/-- Clock settings, RAM and card, but no flash. -/
def cardPlatform : Platform := ⟨fun _ => 1, fun _ => 1, fun _ => 0, fun _ => 1⟩

theorem header_round_trip_card :
    ∃ ch, fillupCh cardPlatform (fun _ => 0) = some (ch, 0) ∧
      readToc ch = some ((present cardPlatform).map fun s => s.entry,
        32 * ((present cardPlatform).length + 1)) ∧
      (∀ s ∈ present cardPlatform, ReadBack ch s ∧
        32 * ((present cardPlatform).length + 1) ≤ s.start) ∧
      (present cardPlatform).Pairwise fun s t => s.start + s.size ≤ t.start :=
  header_round_trip cardPlatform (fun _ => 0) (by decide)

/-! ### What the header depends on -/

/-- Memories in which the four structures have the same contents. -/
structure SameStructures (p q : Platform) : Prop where
  chsettings : readBytes p.chsettings 0 chSettings.size = readBytes q.chsettings 0 chSettings.size
  chram : readBytes p.chram 0 chRam.size = readBytes q.chram 0 chRam.size
  chflash : readBytes p.chflash 0 chFlash.size = readBytes q.chflash 0 chFlash.size
  chmmcsd : readBytes p.chmmcsd 0 chMmcsd.size = readBytes q.chmmcsd 0 chMmcsd.size

/-- The bytes behind platform_chmmcsd that the copy of its section takes along. -/
def overread (p : Platform) : List UInt8 :=
  readBytes p.chmmcsd chMmcsd.size (chFlash.size - chMmcsd.size)

/-- Every byte behind the table and in no declared range is zero. -/
def OutsideZero (p : Platform) (ch : Memory) : Prop :=
  ∀ j, j < chBufferSize → 32 * ((present p).length + 1) ≤ j →
    (∀ s ∈ present p, j < s.start ∨ s.start + s.size ≤ j) → ch j = 0

theorem putSection_congr (k : SectionKind) (m m' : Memory) (c : Cursor)
    (h : readBytes m 0 k.copied = readBytes m' 0 k.copied) :
    putSection ⟨k, m⟩ c = putSection ⟨k, m'⟩ c := by
  simp only [putSection, h]

theorem putIfValid_congr (k : SectionKind) (m m' : Memory) (c : Cursor)
    (hvalid : Section.valid ⟨k, m⟩ = Section.valid ⟨k, m'⟩)
    (h : Section.valid ⟨k, m⟩ ≠ 0 → readBytes m 0 k.copied = readBytes m' 0 k.copied) :
    putIfValid ⟨k, m⟩ c = putIfValid ⟨k, m'⟩ c := by
  unfold putIfValid
  rw [← hvalid]
  by_cases hv : Section.valid ⟨k, m⟩ = 0
  · rw [if_pos hv, if_pos hv]
  · rw [if_neg hv, if_neg hv, putSection_congr k m m' c (h hv)]

variable {p}

theorem SameStructures.valid {q : Platform} (h : SameStructures p q) :
    (settingsSection p).valid = (settingsSection q).valid ∧
      (ramSection p).valid = (ramSection q).valid ∧
      (flashSection p).valid = (flashSection q).valid ∧
      (mmcsdSection p).valid = (mmcsdSection q).valid := by
  have hat : ∀ (l : Layout) (m m' : Memory), readBytes m 0 l.size = readBytes m' 0 l.size →
      l.offset "valid" < l.size → m (l.offset "valid") = m' (l.offset "valid") := by
    intro l m m' hm hlt
    simpa using eq_of_readBytes_eq m m' 0 0 l.size (l.offset "valid") hm hlt
  exact ⟨hat chSettings _ _ h.chsettings (by decide), hat chRam _ _ h.chram (by decide),
    hat chFlash _ _ h.chflash (by decide), hat chMmcsd _ _ h.chmmcsd (by decide)⟩

theorem readBytes_mmcsd (p : Platform) :
    readBytes p.chmmcsd 0 chFlash.size = readBytes p.chmmcsd 0 chMmcsd.size ++ overread p := by
  have hsplit := readBytes_append p.chmmcsd 0 chMmcsd.size (chFlash.size - chMmcsd.size)
  rw [Nat.zero_add] at hsplit
  exact hsplit

/-- The copy of CHMMCSD is in the header with what it takes along. -/
theorem Header.held_mmcsd {ch : Memory} (h : Header (present p) ch)
    (hv : (mmcsdSection p).valid ≠ 0) (i : ℕ) (hi : i < chFlash.size) :
    ch (mmcsdKind.start + i) = p.chmmcsd i := by
  have hin : mmcsdSection p ∈ present p := by simp [present, sections, hv]
  exact h.held _ hin i hi

/-- Equal structures give equal headers exactly if the copy takes nothing else along. -/
theorem SameStructures.fillupCh_eq_iff {q : Platform} (h : SameStructures p q)
    (hvalid : (settingsSection p).valid ≠ 0) :
    fillupCh q chBuffer = fillupCh p chBuffer ↔
      (mmcsdSection p).valid = 0 ∨ overread p = overread q := by
  obtain ⟨hvsettings, hvram, hvflash, hvmmcsd⟩ := h.valid
  have hvq : (settingsSection q).valid ≠ 0 := hvsettings ▸ hvalid
  constructor
  · intro heq
    by_cases hv : (mmcsdSection p).valid = 0
    · exact Or.inl hv
    · right
      obtain ⟨ch, hch, hheader⟩ := fillupCh_header p chBuffer hvalid
      obtain ⟨ch', hch', hheader'⟩ := fillupCh_header q chBuffer hvq
      rw [hch, hch', Option.some.injEq, Prod.mk.injEq] at heq
      apply readBytes_congr
      intro i hi
      have hlt : chMmcsd.size + i < chFlash.size := by omega
      rw [← hheader.held_mmcsd hv _ hlt, ← hheader'.held_mmcsd (hvmmcsd ▸ hv) _ hlt, heq.1]
  · intro hcond
    have hmmcsd : (mmcsdSection q).valid ≠ 0 →
        readBytes q.chmmcsd 0 mmcsdKind.copied = readBytes p.chmmcsd 0 mmcsdKind.copied := by
      intro hv
      rcases hcond with hzero | hover
      · exact absurd (hvmmcsd ▸ hzero) hv
      · have hp := readBytes_mmcsd p
        have hq := readBytes_mmcsd q
        rw [h.chmmcsd, hover, ← hq] at hp
        exact hp.symm
    have hram := fun c => putIfValid_congr ramKind q.chram p.chram c hvram.symm
      fun _ => h.chram.symm
    have hflash := fun c => putIfValid_congr flashKind q.chflash p.chflash c hvflash.symm
      fun _ => h.chflash.symm
    have hlast := fun c => putIfValid_congr mmcsdKind q.chmmcsd p.chmmcsd c hvmmcsd.symm hmmcsd
    have hfirst := fun c => putSection_congr settingsKind q.chsettings p.chsettings c
      h.chsettings.symm
    unfold fillupCh
    rw [if_neg hvalid, if_neg hvq]
    simp only [settingsSection, ramSection, flashSection, mmcsdSection, hfirst, hram, hflash, hlast]

/-- Every section but CHMMCSD is copied as it is declared, and lies before it. -/
theorem mmcsd_or_exact (p : Platform) (s : Section) (hs : s ∈ present p) :
    s = mmcsdSection p ∨ s.copied = s.size ∧ s.start + s.size ≤ mmcsdKind.start := by
  have hkinds : ∀ k ∈ [settingsKind, ramKind, flashKind],
      k.copied = k.size ∧ k.start + k.size ≤ mmcsdKind.start := by decide
  have hmem := (present_sublist p).subset hs
  simp only [sections, List.mem_cons, List.not_mem_nil, or_false] at hmem
  rcases hmem with rfl | rfl | rfl | rfl
  · exact Or.inr (hkinds settingsKind (by simp))
  · exact Or.inr (hkinds ramKind (by simp))
  · exact Or.inr (hkinds flashKind (by simp))
  · exact Or.inl rfl

theorem overread_zero_iff (p : Platform) :
    (∀ b ∈ overread p, b = 0) ↔
      ∀ i, chMmcsd.size ≤ i → i < chFlash.size → p.chmmcsd i = 0 := by
  rw [overread, readBytes, List.forall_mem_map]
  simp only [List.mem_range]
  constructor
  · intro h i hge hlt
    obtain ⟨d, rfl⟩ := Nat.exists_eq_add_of_le hge
    exact h d (by omega)
  · intro h d hd
    exact h _ (Nat.le_add_right _ _) (by omega)

/-- The header has nothing outside its declared ranges exactly if the copy takes
along nothing but zeros. -/
theorem outsideZero_iff (p : Platform) {ch : Memory} (h : Header (present p) ch) :
    OutsideZero p ch ↔
      (mmcsdSection p).valid = 0 ∨ ∀ b ∈ overread p, b = 0 := by
  have hend : mmcsdKind.start + chFlash.size ≤ chBufferSize := by decide
  have htable : 32 * 5 ≤ mmcsdKind.start := by decide
  rw [overread_zero_iff]
  constructor
  · intro hzero
    by_cases hv : (mmcsdSection p).valid = 0
    · exact Or.inl hv
    · right
      intro i hge hlt
      have hcount := present_length p
      rw [← h.held_mmcsd hv i hlt]
      apply hzero (mmcsdKind.start + i) (by omega) (by omega)
      intro s hs
      right
      rcases mmcsd_or_exact p s hs with rfl | ⟨_, hbefore⟩
      · exact Nat.add_le_add_left hge _
      · omega
  · intro hcond j hj hlow hout
    by_cases hcopy : ∀ s ∈ present p, j < s.start ∨ s.start + s.copied ≤ j
    · exact h.blank j hj hlow hcopy
    · -- a byte that was copied but not declared belongs to CHMMCSD
      obtain ⟨s, hs, hge, hlt⟩ : ∃ s ∈ present p, s.start ≤ j ∧ j < s.start + s.copied := by
        by_contra hno
        apply hcopy
        intro s hs
        by_contra hin
        exact hno ⟨s, hs, by omega, by omega⟩
      have hrange := hout s hs
      rcases mmcsd_or_exact p s hs with rfl | ⟨hexact, _⟩
      · have hv : (mmcsdSection p).valid ≠ 0 := by simpa using (List.mem_filter.mp hs).2
        obtain ⟨i, rfl⟩ := Nat.exists_eq_add_of_le hge
        have hi : i < chFlash.size := Nat.lt_of_add_lt_add_left hlt
        have hbehind : chMmcsd.size ≤ i :=
          Nat.le_of_add_le_add_left (hrange.resolve_left (Nat.not_lt.mpr hge))
        exact (h.held_mmcsd hv i hi).trans ((hcond.resolve_left hv) i hbehind hi)
      · omega

/-- The same structures with the byte `v` everywhere behind them. -/
def followedBy (p : Platform) (v : UInt8) : Platform where
  chsettings := fun j => if j < chSettings.size then p.chsettings j else v
  chram := fun j => if j < chRam.size then p.chram j else v
  chflash := fun j => if j < chFlash.size then p.chflash j else v
  chmmcsd := fun j => if j < chMmcsd.size then p.chmmcsd j else v

theorem sameStructures_followedBy (p : Platform) (v : UInt8) :
    SameStructures p (followedBy p v) := by
  have hsame : ∀ (m : Memory) (n : ℕ),
      readBytes m 0 n = readBytes (fun j => if j < n then m j else v) 0 n := by
    intro m n
    apply readBytes_congr
    intro i hi
    rw [if_pos (by omega)]
  exact ⟨hsame _ _, hsame _ _, hsame _ _, hsame _ _⟩

theorem overread_followedBy (p : Platform) (v : UInt8) :
    overread (followedBy p v) = List.replicate 44 v := by
  rw [overread, readBytes, followedBy, show chFlash.size - chMmcsd.size = 44 by decide]
  simp [List.map_const']

theorem SameStructures.trans {p q r : Platform} (hpq : SameStructures p q)
    (hqr : SameStructures q r) : SameStructures p r :=
  ⟨hpq.1.trans hqr.1, hpq.2.trans hqr.2, hpq.3.trans hqr.3, hpq.4.trans hqr.4⟩

/-- What the header depends on besides the structures: 44 bytes behind
platform_chmmcsd, and those only if its section is valid. -/
theorem header_dependence (hvalid : (settingsSection p).valid ≠ 0) :
    (∀ q, SameStructures p q → (fillupCh q chBuffer = fillupCh p chBuffer ↔
      (mmcsdSection p).valid = 0 ∨ overread p = overread q)) ∧
    (∃ ch, fillupCh p chBuffer = some (ch, 0) ∧ (OutsideZero p ch ↔
      (mmcsdSection p).valid = 0 ∨ ∀ b ∈ overread p, b = 0)) ∧
    ((∀ q, SameStructures p q → fillupCh q chBuffer = fillupCh p chBuffer) ↔
      (mmcsdSection p).valid = 0) := by
  have hpair := fun (q : Platform) (h : SameStructures p q) => h.fillupCh_eq_iff chBuffer hvalid
  refine ⟨hpair, ?_, ?_⟩
  · obtain ⟨ch, hch, hheader⟩ := fillupCh_header p chBuffer hvalid
    exact ⟨ch, hch, outsideZero_iff p hheader⟩
  · constructor
    · intro hall
      by_contra hv
      have hsame := sameStructures_followedBy p
      have hbytes : ∀ v, overread p = List.replicate 44 v := by
        intro v
        rw [← overread_followedBy p v]
        exact ((hpair _ (hsame v)).mp (hall _ (hsame v))).resolve_left hv
      exact absurd ((hbytes 0).symm.trans (hbytes 1)) (by decide)
    · intro hv q hq
      exact (hpair q hq).mpr (Or.inl hv)

/-- All four sections valid, with `v` in the memory behind the structures. -/
def allValid (v : UInt8) : Platform := followedBy ⟨fun _ => 1, fun _ => 1, fun _ => 1, fun _ => 1⟩ v

theorem header_dependence_all_valid :
    (fillupCh (followedBy (allValid 0) 1) (fun _ => 0) = fillupCh (allValid 0) (fun _ => 0) ↔
      (mmcsdSection (allValid 0)).valid = 0 ∨
        overread (allValid 0) = overread (followedBy (allValid 0) 1)) ∧
    ∃ ch, fillupCh (allValid 0) (fun _ => 0) = some (ch, 0) ∧ (OutsideZero (allValid 0) ch ↔
      (mmcsdSection (allValid 0)).valid = 0 ∨ ∀ b ∈ overread (allValid 0), b = 0) := by
  obtain ⟨hpair, hzero, _⟩ := header_dependence (p := allValid 0) (fun _ => 0) (by decide)
  exact ⟨hpair _ (sameStructures_followedBy (allValid 0) 1), hzero⟩

/-- The copy of the CHMMCSD section puts bytes of another object into the header. -/
theorem header_overread :
    ¬ ∀ p q chBuffer, SameStructures p q → (settingsSection p).valid ≠ 0 →
      fillupCh q chBuffer = fillupCh p chBuffer := by
  intro h
  have hsame := sameStructures_followedBy (allValid 0) 1
  have hvalid : (settingsSection (allValid 0)).valid ≠ 0 := by decide
  have heq := h (allValid 0) (followedBy (allValid 0) 1) (fun _ => 0) hsame hvalid
  rcases (hsame.fillupCh_eq_iff (fun _ => 0) hvalid).mp heq with hv | hover
  · exact absurd hv (by decide)
  · rw [overread_followedBy, allValid, overread_followedBy] at hover
    exact absurd hover (by decide)

end OmapBootUtils.ChHeader
