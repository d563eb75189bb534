import OmapBootUtils.DocumentSettings
import OmapBootUtils.PagedImage

/-!
gpsign from the text of its configuration file to the configuration header of its
image. Reading the header back finds the sections whose valid byte the document
sets, and in each of their fields the number the document has for it.
-/
namespace OmapBootUtils.DocumentHeader

open ByteMemory PackedLayout ConfigHandler HexNumeral ConfigValues ScannedText ConfigGrammar
  ConfigKeys ConfigText ChSections ChHeader GpsignImage SettingFrames SettingOrder ImageCalls
  CompleteImage PaddedPieces PagedImage DocumentSettings JoinedWords GrowingString
open LcfgScanner (ReadResult)

/-! ### The table of gpsign -/

/-- The names of the structures and of their members are parts of a key. -/
theorem names_checked : ∀ o ∈ objects, Part o.name.toList ∧
    ∀ f ∈ o.layout, isReserved f.name = false → Part f.name.toList := by
  decide +kernel

theorem row_way (c : CompareMap GpsignObject) (hc : c ∈ variableMap) : Way c.name := by
  obtain ⟨o, f, hf, hkept, rfl⟩ := variableMap_row c hc
  have hobject := (names_checked o (mem_objects o)).1
  have hmember := (names_checked o (mem_objects o)).2 f hf hkept
  change Way (fieldName o f.name)
  by_cases ho : o = .loadaddr
  · subst ho
    exact way_of_parts _ [f.name.toList] (by simpa using hmember) (by simp) (by simp [fieldName])
  · apply way_of_parts _ [o.name.toList, f.name.toList]
    · intro w hw
      simp only [List.mem_cons, List.not_mem_nil, or_false] at hw
      rcases hw with rfl | rfl
      · exact hobject
      · exact hmember
    · simp
    · rw [fieldName_toList o ho]
      simp

/-- The room of a setting is what its number takes, the reserved field behind the flags
included. -/
def gpsignTable : SettingTable GpsignObject where
  rows := variableMap
  room c := typeWidth c.type
  named := row_way
  found := variableMap_find
  apart c hc d hd hne hobject := entries_apart c d hc hd hobject hne

theorem gpsignTable_fits (settings : Settings) : gpsignTable.Fits settings := by
  intro c hc r _ _ bytes hstored
  exact (stored_length c (variableMap_numeric c hc) r.2 bytes hstored).le

/-! ### The fields of a document -/

section Document
variable (settings : Settings)

/-- The number a document has for a field; without one a field is 0, and the load address
its default. -/
def fieldNumber (o : GpsignObject) (name : String) : UInt32 :=
  (numberOn settings (wordsOf (fieldName o name))).getD (if o = .loadaddr then 0x40208800 else 0)

/-- All numbers for a field fit it. -/
def FieldsFit : Prop := ∀ o : GpsignObject, ∀ f ∈ o.layout, isReserved f.name = false →
  ∀ r ∈ flat settings, r.1 = wordsOf (fieldName o f.name) → ∀ z, taken (cText r.2) = some z →
    (scanned z).toNat < 256 ^ f.width

/-- The sections of a header, with the structures they are copied from. -/
def kinds : List (SectionKind × GpsignObject) :=
  [(settingsKind, .chsettings), (ramKind, .chram), (flashKind, .chflash), (mmcsdKind, .chmmcsd)]

/-- The sections that the document makes valid. -/
def documentKinds : List (SectionKind × GpsignObject) :=
  kinds.filter fun k => fieldNumber settings k.2 "valid" ≠ 0

/-- Walking the table of contents finds the sections of the document, and each of their
fields has its number; the reserved ones are 0. -/
structure HeaderOf (ch : Memory) : Prop where
  toc : readToc ch = some ((documentKinds settings).map fun k => k.1.entry,
    32 * ((documentKinds settings).length + 1))
  fields : ∀ k ∈ documentKinds settings, ∀ f ∈ k.1.layout,
    leNat (readBytes ch (k.1.start + k.1.layout.offset f.name) f.width) =
      if isReserved f.name then 0 else (fieldNumber settings k.2 f.name).toNat

def documentLoadaddr (opts : GpsignOptions) : UInt32 :=
  if opts.cmdLoadaddr ≠ 0xFFFFFFFF then opts.cmdLoadaddr
  else fieldNumber settings .loadaddr "loadaddr"

end Document

/-! ### The structures main has after the settings -/

section Structures
variable (settings : Settings) (m : Objects GpsignObject)

theorem row_mem (o : GpsignObject) (f : Field) (hf : f ∈ o.layout)
    (hkept : isReserved f.name = false) : entryOf (rowOf o f) ∈ gpsignTable.rows := by
  change entryOf (rowOf o f) ∈ variableMap
  rw [variableMap_eq]
  exact List.mem_map.mpr ⟨rowOf o f, (mem_rows _).mpr ⟨o, f, hf, hkept, rfl⟩, rfl⟩

theorem width_le_row (o : GpsignObject) (f : Field) (hf : f ∈ o.layout)
    (hkept : isReserved f.name = false) : f.width ≤ typeWidth (rowType o f) := by
  by_cases hflags : (o, f.name) = (.chram, "flags")
  · obtain ⟨rfl, hname⟩ := Prod.mk.inj hflags
    obtain rfl := field_unique .chram f ⟨"flags", 2⟩ hf flags_mem hname
    decide
  · exact (typeWidth_rowType o f hf hkept hflags).ge

/-- Numbers that fit their fields are not rejected. -/
theorem gpsign_accepts (hplain : PlainSettings settings) (hfit : FieldsFit settings)
    (objs : Objects GpsignObject) :
    (lcfgAccept gpsignTable.rows (pairsOf settings) objs).1 = .ok := by
  rw [lcfgAccept_ok_iff]
  intro pair hpair
  rw [rejected_iff gpsignTable.rows objs]
  obtain ⟨entry, hentry, rfl⟩ := List.mem_map.mp hpair
  obtain ⟨r, hr, rfl⟩ := List.mem_map.mp hentry
  have hwords := keyWords_flatSettings [] settings (fun w hw => by cases hw) hplain r hr
  cases hfind : gpsignTable.rows.find? (fun c => c.name == (pairOf (joined dot r.1, r.2)).1) with
  | none =>
    rw [compareEventhandler_skip _ _ _ _ hfind]
    simp
  | some c =>
    have hc := List.mem_of_find?_eq_some hfind
    have hname : c.name = keyString (joined dot r.1) := by simpa [pairOf] using List.find?_some hfind
    obtain ⟨o, f, hf, hkept, rfl⟩ := variableMap_row c hc
    have hway := (gpsignTable.name_eq_iff _ hc r.1 hwords).mp hname
    have hnumeric : Numeric (entryOf (rowOf o f)).type := rowType_numeric o f
    rw [compareEventhandler_entry _ _ _ _ _ hfind, handleEntry_numeric _ _ _ hnumeric]
    cases htaken : taken (cText (pairOf (joined dot r.1, r.2)).2) with
    | none => simp
    | some z =>
      have hsmall := hfit o f hf hkept r hr hway z htaken
      have hbound := typeWidth_bound _ hnumeric
      have hwidth : 256 ^ f.width ≤ 256 ^ typeWidth (entryOf (rowOf o f)).type :=
        Nat.pow_le_pow_right (by decide) (width_le_row o f hf hkept)
      have hmax : ¬ scanned z > maxVal (entryOf (rowOf o f)).type := by
        rw [gt_iff_lt, UInt32.lt_iff_toNat_lt]
        omega
      simp [storeNumber_status, hmax]

theorem leNat_readBytes_mod (s : Memory) (start len more : ℕ) :
    leNat (readBytes s start (len + more)) % 256 ^ len = leNat (readBytes s start len) := by
  induction len generalizing start with
  | zero => simp [readBytes, leNat, Nat.mod_one]
  | succ len ih =>
    have hb := (s start).toNat_lt
    have hdiv : ∀ n, ((s start).toNat + 256 * n) / 256 = n := by
      intro n
      omega
    rw [Nat.succ_add, readBytes_succ, readBytes_succ, leNat, leNat, Nat.pow_succ,
      Nat.mul_comm (256 ^ len) 256, Nat.mod_mul, hdiv, ih (start + 1)]
    omega

theorem leNat_zeros (n : ℕ) : leNat (List.replicate n 0) = 0 := by
  induction n with
  | zero => rfl
  | succ n ih => rw [List.replicate_succ, leNat, ih]; rfl

/-- What a field holds before the settings. -/
theorem field_reset (o : GpsignObject) (f : Field) (hf : f ∈ o.layout) :
    leNat (readBytes (resetObjects m o) (o.layout.offset f.name) f.width) =
      if o = .loadaddr then 0x40208800 else 0 := by
  have hinside := Layout.offset_add_width_le o.layout (objectLayout_distinct o) f hf
  by_cases ho : o = .loadaddr
  · subst ho
    obtain rfl : f = ⟨"loadaddr", 4⟩ := List.mem_singleton.mp hf
    have hread := readBytes_putBytes (m .loadaddr) 0 (u32Bytes 0x40208800)
    rw [u32Bytes_length] at hread
    rw [if_pos rfl]
    exact (congrArg leNat hread).trans (leNat_u32Bytes _)
  · have hreset : resetObjects m o = putBytes (m o) 0 (List.replicate o.layout.size 0) := by
      cases o with
      | loadaddr => exact absurd rfl ho
      | _ => rfl
    have hzeros : readBytes (resetObjects m o) (o.layout.offset f.name) f.width =
        List.replicate f.width 0 := by
      apply List.ext_getElem
      · simp
      · intro i hi _
        rw [readBytes_length] at hi
        have hat := putBytes_at (m o) 0 (List.replicate o.layout.size 0)
          (o.layout.offset f.name + i) (by rw [List.length_replicate]; omega)
        rw [getElem_readBytes, List.getElem_replicate, hreset]
        rw [Nat.zero_add, List.getElem_replicate] at hat
        exact hat
    rw [hzeros, leNat_zeros, if_neg ho]

/-- A field holds the number the document has for it. -/
theorem field_document (hplain : PlainSettings settings) (hfit : FieldsFit settings)
    (o : GpsignObject) (f : Field) (hf : f ∈ o.layout) (hkept : isReserved f.name = false) :
    leNat (readBytes (configured (pairsOf settings) m o) (o.layout.offset f.name) f.width) =
      (fieldNumber settings o f.name).toNat := by
  have hvalue := gpsignTable.value_document settings (resetObjects m) hplain
    (gpsignTable_fits settings) (gpsign_accepts settings hplain hfit _) _ (row_mem o f hf hkept)
    (rowType_numeric o f) le_rfl
  -- the field is the low part of what the row stores
  obtain ⟨more, hmore⟩ := Nat.exists_eq_add_of_le (width_le_row o f hf hkept)
  have hlow : ∀ objs : Objects GpsignObject, value (entryOf (rowOf o f)) objs % 256 ^ f.width =
      leNat (readBytes (objs o) (o.layout.offset f.name) f.width) := by
    intro objs
    rw [← leNat_readBytes_mod _ _ f.width more, ← hmore]
    rfl
  have hname : (entryOf (rowOf o f)).name = fieldName o f.name := rfl
  rw [hname] at hvalue
  rw [← hlow, fieldNumber]
  refine (congrArg (· % 256 ^ f.width) hvalue).trans ?_
  cases hnumber : numberOn settings (wordsOf (fieldName o f.name)) with
  | none =>
    rw [Option.elim_none, Option.getD_none]
    refine (hlow _).trans ((field_reset m o f hf).trans ?_)
    split <;> rfl
  | some v =>
    obtain ⟨before, r, after, hsplit, hr, -⟩ := (findLast_eq_some_iff _ _ v).mp hnumber
    have hmem : r ∈ flat settings := by
      rw [hsplit]
      simp
    by_cases hway : r.1 = wordsOf (fieldName o f.name)
    · rw [if_pos hway, Option.map_eq_some_iff] at hr
      obtain ⟨z, hz, rfl⟩ := hr
      exact Nat.mod_eq_of_lt (hfit o f hf hkept r hmem hway z hz)
    · rw [if_neg hway] at hr
      cases hr

/-- A number for the flags that fits leaves the reserved field behind them alone. -/
theorem reserved_document (hplain : PlainSettings settings) (hfit : FieldsFit settings) :
    ReservedZero (configured (pairsOf settings) m) := by
  refine (reservedZero_run (pairsOf settings) _ (ReservedZero.reset m)).mpr ?_ _
    (List.prefix_refl _)
  intro before pair hhandled hkey z hz
  have hpair : pair ∈ pairsOf settings := hhandled.1.subset (by simp)
  obtain ⟨entry, hentry, rfl⟩ := List.mem_map.mp hpair
  obtain ⟨r, hr, rfl⟩ := List.mem_map.mp hentry
  have hwords := keyWords_flatSettings [] settings (fun w hw => by cases hw) hplain r hr
  have hname : flagsEntry.name = keyString (joined dot r.1) := flagsEntry_name.trans hkey.symm
  have hway := (gpsignTable.name_eq_iff flagsEntry flagsEntry_mem r.1 hwords).mp hname
  exact hfit .chram ⟨"flags", 2⟩ flags_mem (by decide) r hr hway z hz

/-! ### The header -/

/-- A section of the structures main has. -/
def sectionOf (objs : Objects GpsignObject) (k : SectionKind × GpsignObject) : Section :=
  ⟨k.1, objs k.2⟩

theorem kinds_layout (k : SectionKind × GpsignObject) (hk : k ∈ kinds) :
    k.1.layout = k.2.layout ∧ (⟨"valid", 1⟩ : Field) ∈ k.2.layout ∧ k.2 ≠ .loadaddr := by
  simp only [kinds, List.mem_cons, List.not_mem_nil, or_false] at hk
  rcases hk with rfl | rfl | rfl | rfl
  · exact ⟨rfl, by decide, by decide⟩
  · exact ⟨rfl, by decide, by decide⟩
  · exact ⟨rfl, by decide, by decide⟩
  · exact ⟨rfl, by decide, by decide⟩

theorem sections_kinds (objs : Objects GpsignObject) :
    sections (platformOf objs) = kinds.map (sectionOf objs) := rfl

/-- A section is valid if the document says so. -/
theorem valid_document (hplain : PlainSettings settings) (hfit : FieldsFit settings)
    (k : SectionKind × GpsignObject) (hk : k ∈ kinds) :
    (sectionOf (configured (pairsOf settings) m) k).valid = 0 ↔
      fieldNumber settings k.2 "valid" = 0 := by
  obtain ⟨hlayout, hfield, -⟩ := kinds_layout k hk
  have hnumber := field_document settings m hplain hfit k.2 ⟨"valid", 1⟩ hfield (by decide)
  have hbyte : leNat (readBytes (configured (pairsOf settings) m k.2)
      (k.2.layout.offset "valid") 1) =
        ((sectionOf (configured (pairsOf settings) m) k).valid).toNat := by
    simp [readBytes, leNat, Section.valid, sectionOf, hlayout]
  rw [hbyte] at hnumber
  rw [← UInt8.toNat_inj, hnumber, ← UInt32.toNat_inj]
  rfl

theorem present_document (hplain : PlainSettings settings) (hfit : FieldsFit settings) :
    present (platformOf (configured (pairsOf settings) m)) =
      (documentKinds settings).map (sectionOf (configured (pairsOf settings) m)) := by
  rw [present, sections_kinds, List.filter_map, documentKinds]
  congr 1
  apply List.filter_congr
  intro k hk
  have hvalid := valid_document settings m hplain hfit k hk
  simp [hvalid]

theorem header_document (hplain : PlainSettings settings) (hfit : FieldsFit settings)
    (ch : Memory) (h : Header (present (platformOf (configured (pairsOf settings) m))) ch) :
    HeaderOf settings ch := by
  have hpresent := present_document settings m hplain hfit
  constructor
  · rw [h.readToc_eq (present_length _), hpresent, List.map_map, List.length_map]
    rfl
  · intro k hk f hf
    have hsection : sectionOf (configured (pairsOf settings) m) k ∈
        present (platformOf (configured (pairsOf settings) m)) := by
      rw [hpresent]
      exact List.mem_map_of_mem hk
    have hkind := List.mem_of_mem_filter hk
    obtain ⟨hlayout, -, -⟩ := kinds_layout k hkind
    have hread := (h.readBack _ _ hsection).fields f hf
    have hfield : f ∈ k.2.layout := hlayout ▸ hf
    have hbytes : readBytes ch (k.1.start + k.1.layout.offset f.name) f.width =
        readBytes (configured (pairsOf settings) m k.2) (k.2.layout.offset f.name) f.width := by
      rw [← hlayout]
      exact hread
    rw [hbytes]
    cases hkept : isReserved f.name with
    | false => exact field_document settings m hplain hfit k.2 f hfield hkept
    | true =>
      have hzero := reserved_document settings m hplain hfit k.2 f
        (List.mem_filter.mpr ⟨hfield, hkept⟩)
      rw [hzero, leNat_zeros, if_pos rfl]

end Structures

/-! ### The file -/

section File
variable (settings : Settings) (opts : GpsignOptions) (m : Objects GpsignObject)

theorem loadaddr_document (hplain : PlainSettings settings) (hfit : FieldsFit settings) :
    loadaddrOf opts (configured (pairsOf settings) m) = documentLoadaddr settings opts := by
  have hnumber := field_document settings m hplain hfit .loadaddr ⟨"loadaddr", 4⟩
    (List.mem_singleton_self _) (by decide)
  have hread : readU32 (configured (pairsOf settings) m .loadaddr) 0 =
      fieldNumber settings .loadaddr "loadaddr" := by
    rw [readU32]
    refine (congrArg UInt32.ofNat hnumber).trans ?_
    rw [UInt32.ofNat_toNat]
  rw [loadaddrOf, documentLoadaddr, hread]

/-- What main writes behind the header. -/
def imageOf (input : List UInt8) : List UInt8 :=
  if opts.pageSize4k then
    insertPads pagePadSize pagePad 0 (plainPart (documentLoadaddr settings opts) input)
  else plainPart (documentLoadaddr settings opts) input

/-- main reads the settings from the file and writes the input behind a header of the
document, or without one if the document has no valid settings section. -/
def WritesFile (reads : List ReadResult) (env : GpsignEnv) (input : List UInt8) : Prop :=
  ∃ config header, configFile (.inr reads) = some config ∧
    (gpsignMain opts config m env).status = .done 0 ∧
    stored (gpsignMain opts config m env).log = header ++ imageOf settings opts input ∧
    if fieldNumber settings .chsettings "valid" = 0 then header = []
    else ∃ ch, header = readBytes ch 0 chBufferSize ∧ HeaderOf settings ch

end File

/-- A load address and a settings section that is valid. -/
def clockSettings : Settings :=
  .cons (bytesOf "loadaddr") (.string (bytesOf "0x80"))
    (.cons (bytesOf "platform_chsettings")
      (.map (.cons (bytesOf "valid") (.string (bytesOf "0x1")) .nil)) .nil)

end OmapBootUtils.DocumentHeader
