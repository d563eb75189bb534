import OmapBootUtils.CallMachine
import OmapBootUtils.ConfigValues
import OmapBootUtils.GpsignImage
import Mathlib.Data.List.Nodup

/-!
What the settings of gpsign write. Its table has a row for every field that is not
kept back, and every row but one has the width of its field. The row of
platform_chram.flags has twice that, and the upper half of its number goes to the
reserved field behind it.
-/
namespace OmapBootUtils.SettingFrames

open ByteMemory PackedLayout CallMachine ConfigHandler HexNumeral ConfigValues ChSections ChHeader
  GpsignImage

/-! ### Keys and fields -/

/-- The C expression of a field. -/
def fieldName : GpsignObject → String → String
  | .loadaddr, name => name
  | o, name => o.name ++ "." ++ name

def isReserved (name : String) : Bool := "reserved".toList.isPrefixOf name.toList

/-- The fields a layout keeps back. -/
def reservedOf (l : Layout) : List Field := l.filter fun f => isReserved f.name

/-- The rows of the table: object, member and type. -/
def rows : List (GpsignObject × String × ℕ) :=
  (.loadaddr, "loadaddr", typeU32) ::
    (chsettingsMembers.map (Prod.mk .chsettings) ++ chramMembers.map (Prod.mk .chram) ++
      chflashMembers.map (Prod.mk .chflash) ++ chmmcsdMembers.map (Prod.mk .chmmcsd))

def entryOf (row : GpsignObject × String × ℕ) : CompareMap GpsignObject :=
  ⟨fieldName row.1 row.2.1, row.1, row.1.layout.offset row.2.1, row.2.2⟩

theorem variableMap_eq : variableMap = rows.map entryOf := by
  simp only [variableMap, rows, List.map_cons, List.map_append, List.map_map]
  rfl

/-- The type for a field of that width. -/
def typeFor (width : ℕ) : ℕ :=
  if width = 4 then typeU32 else if width = 2 then typeU16 else typeU8

/-- The type of the field's row, which is that of its width for all fields but one. -/
def rowType (o : GpsignObject) (f : Field) : ℕ :=
  if (o, f.name) = (.chram, "flags") then typeU32 else typeFor f.width

def objects : List GpsignObject := [.loadaddr, .chsettings, .chram, .chflash, .chmmcsd]

theorem mem_objects (o : GpsignObject) : o ∈ objects := by
  cases o <;> simp [objects]

/-- The row of a field. -/
def rowOf (o : GpsignObject) (f : Field) : GpsignObject × String × ℕ := (o, f.name, rowType o f)

/-- The table has the rows of all fields but the reserved ones, in their order, and these
fields have the width of a number. No name has a dot. -/
theorem table_checked :
    rows = (objects.flatMap fun o =>
      (o.layout.filter fun f => !isReserved f.name).map (rowOf o)) ∧
    ∀ o ∈ objects, ∀ f ∈ o.layout, '.' ∉ f.name.toList ∧
      (isReserved f.name = false → f.width = 1 ∨ f.width = 2 ∨ f.width = 4) := by
  decide +kernel

theorem mem_rows (row : GpsignObject × String × ℕ) :
    row ∈ rows ↔ ∃ o, ∃ f ∈ o.layout, isReserved f.name = false ∧ rowOf o f = row := by
  rw [table_checked.1]
  simp only [List.mem_flatMap, List.mem_map, List.mem_filter, Bool.not_eq_true', mem_objects,
    true_and, and_assoc]

theorem layout_undotted (o : GpsignObject) (f : Field) (hf : f ∈ o.layout) :
    '.' ∉ f.name.toList :=
  (table_checked.2 o (mem_objects o) f hf).1

theorem rowType_numeric (o : GpsignObject) (f : Field) : Numeric (rowType o f) := by
  unfold rowType typeFor
  split
  · exact Or.inl rfl
  · split
    · exact Or.inl rfl
    · split
      · exact Or.inr (Or.inl rfl)
      · exact Or.inr (Or.inr rfl)

/-- A row has the width of its field, unless it is that of the flags. -/
theorem typeWidth_rowType (o : GpsignObject) (f : Field) (hf : f ∈ o.layout)
    (hkept : isReserved f.name = false) (hflags : (o, f.name) ≠ (.chram, "flags")) :
    typeWidth (rowType o f) = f.width := by
  rw [rowType, if_neg hflags]
  rcases (table_checked.2 o (mem_objects o) f hf).2 hkept with h | h | h <;> rw [h] <;> rfl

theorem objectName_injective : Function.Injective GpsignObject.name := by
  intro o o' h
  cases o <;> cases o' <;> first | rfl | simp [GpsignObject.name] at h

theorem objectName_undotted (o : GpsignObject) : '.' ∉ o.name.toList := by
  cases o <;> simp [GpsignObject.name]

theorem objectLayout_distinct (o : GpsignObject) : o.layout.Distinct := by
  cases o with
  | loadaddr => exact List.nodup_singleton _
  | chsettings => exact kinds_distinct settingsKind (by simp)
  | chram => exact kinds_distinct ramKind (by simp)
  | chflash => exact kinds_distinct flashKind (by simp)
  | chmmcsd => exact kinds_distinct mmcsdKind (by simp)

theorem fieldName_toList (o : GpsignObject) (h : o ≠ .loadaddr) (name : String) :
    (fieldName o name).toList = o.name.toList ++ '.' :: name.toList := by
  cases o with
  | loadaddr => exact absurd rfl h
  | _ => simp [fieldName]

/-- A key says which object and which member; no name has a dot of its own. -/
theorem fieldName_injective (o o' : GpsignObject) (name name' : String)
    (hname : '.' ∉ name.toList) (hname' : '.' ∉ name'.toList)
    (h : fieldName o name = fieldName o' name') : o = o' ∧ name = name' := by
  have hlist := congrArg String.toList h
  by_cases ho : o = .loadaddr
  · subst ho
    by_cases ho' : o' = .loadaddr
    · subst ho'
      exact ⟨rfl, h⟩
    · rw [fieldName_toList o' ho'] at hlist
      exact absurd (hlist ▸ List.mem_append_right _ (List.mem_cons_self ..)) hname
  · by_cases ho' : o' = .loadaddr
    · subst ho'
      rw [fieldName_toList o ho] at hlist
      exact absurd (hlist ▸ List.mem_append_right _ (List.mem_cons_self ..)) hname'
    · rw [fieldName_toList o ho, fieldName_toList o' ho',
        List.append_cons_inj_of_notMem (objectName_undotted o) hname] at hlist
      exact ⟨objectName_injective (String.toList_injective hlist.1),
        String.toList_injective hlist.2.2⟩

theorem field_unique (o : GpsignObject) (f f' : Field) (hf : f ∈ o.layout) (hf' : f' ∈ o.layout)
    (h : f.name = f'.name) : f = f' :=
  List.inj_on_of_nodup_map (objectLayout_distinct o) hf hf' h

/-- An entry is the row of the field that its key names. -/
theorem entry_of_name (c : CompareMap GpsignObject) (hc : c ∈ variableMap) (o : GpsignObject)
    (f : Field) (hf : f ∈ o.layout) (hname : c.name = fieldName o f.name) :
    isReserved f.name = false ∧ c = entryOf (rowOf o f) := by
  rw [variableMap_eq] at hc
  obtain ⟨row, hrow, rfl⟩ := List.mem_map.mp hc
  obtain ⟨o', f', hf', hkept, rfl⟩ := (mem_rows row).mp hrow
  obtain ⟨rfl, hfield⟩ := fieldName_injective o' o f'.name f.name (layout_undotted o' f' hf')
    (layout_undotted o f hf) hname
  obtain rfl := field_unique o' f' f hf' hf hfield
  exact ⟨hkept, rfl⟩

theorem entry_has_field (c : CompareMap GpsignObject) (hc : c ∈ variableMap) :
    ∃ o, ∃ f ∈ o.layout, c.name = fieldName o f.name := by
  rw [variableMap_eq] at hc
  obtain ⟨row, hrow, rfl⟩ := List.mem_map.mp hc
  obtain ⟨o, f, hf, _, rfl⟩ := (mem_rows row).mp hrow
  exact ⟨o, f, hf, rfl⟩

/-- The handler finds the entry a key belongs to. -/
theorem variableMap_find (c : CompareMap GpsignObject) (hc : c ∈ variableMap) :
    variableMap.find? (fun d => d.name == c.name) = some c := by
  obtain ⟨o, f, hf, hname⟩ := entry_has_field c hc
  cases hfind : variableMap.find? (fun d => d.name == c.name) with
  | none => exact absurd (beq_self_eq_true c.name) (List.find?_eq_none.mp hfind c hc)
  | some d =>
    have hd : d.name = c.name := by simpa using List.find?_some hfind
    rw [(entry_of_name c hc o f hf hname).2,
      (entry_of_name d (List.mem_of_find?_eq_some hfind) o f hf (hd.trans hname)).2]

/-! ### One call -/

/-- No byte of the objects changes but those of the field. -/
def ChangesOnly (o : GpsignObject) (f : Field) (objs objs' : Objects GpsignObject) : Prop :=
  ∀ o' j, j < o'.layout.size →
    o' ≠ o ∨ j < o.layout.offset f.name ∨ o.layout.offset f.name + f.width ≤ j →
      objs' o' j = objs o' j

/-- The number in the reserved field behind platform_chram.flags. -/
def reserved5 (objs : Objects GpsignObject) : ℕ :=
  leNat (readBytes (objs .chram) (chRam.offset "reserved5") 2)

def flagsKey : String := "platform_chram.flags"

def flagsEntry : CompareMap GpsignObject := entryOf (.chram, "flags", typeU32)

section Call
variable (objs : Objects GpsignObject)

theorem changesOnly_store (o : GpsignObject) (f : Field) (type : ℕ) (bytes : List UInt8)
    (hbytes : bytes.length = f.width) :
    ChangesOnly o f objs ((entryOf (o, f.name, type)).store objs bytes) := by
  intro o' j _ hj
  rw [CompareMap.store]
  split
  · next ho =>
    subst ho
    exact putBytes_outside _ _ _ j (by simpa [entryOf, hbytes] using hj)
  · rfl

theorem chRam_flags : chRam.offset "flags" = 88 := by simp [chRam, Layout.offset]

theorem chRam_reserved5 : chRam.offset "reserved5" = 90 := by simp [chRam, Layout.offset]

/-- The word stored for the flags covers the field and the reserved one. -/
theorem flagsEntry_store (v : ℕ) :
    flagsEntry.store objs (leBytes 4 v) .chram =
      putBytes (putBytes (objs .chram) (chRam.offset "flags") (leBytes 2 v))
        (chRam.offset "reserved5") (leBytes 2 (v / 2 ^ 16)) := by
  have hafter : chRam.offset "reserved5" = chRam.offset "flags" + (leBytes 2 v).length := by
    rw [leBytes_length, chRam_flags, chRam_reserved5]
  have hword : leBytes 4 v = leBytes 2 v ++ leBytes 2 (v / 2 ^ 16) := leBytes_add 2 2 v
  rw [hafter, ← putBytes_append, ← hword]
  exact store_at flagsEntry objs (leBytes 4 v)

theorem reserved5_flags (v : ℕ) (hv : v < 2 ^ 32) :
    reserved5 (flagsEntry.store objs (leBytes 4 v)) = v / 2 ^ 16 := by
  have hread := readBytes_putBytes (putBytes (objs .chram) (chRam.offset "flags") (leBytes 2 v))
    (chRam.offset "reserved5") (leBytes 2 (v / 2 ^ 16))
  rw [leBytes_length] at hread
  rw [reserved5, flagsEntry_store, hread, leNat_leBytes]
  exact Nat.mod_eq_of_lt (by omega)

/-- The word for the flags changes only them if its upper half is there already. -/
theorem changesOnly_flags_iff (v : ℕ) (hv : v < 2 ^ 32) :
    ChangesOnly .chram ⟨"flags", 2⟩ objs (flagsEntry.store objs (leBytes 4 v)) ↔
      reserved5 objs = v / 2 ^ 16 := by
  constructor
  · intro h
    rw [← reserved5_flags objs v hv, reserved5, reserved5, chRam_reserved5]
    congr 1
    apply readBytes_congr
    intro i hi
    refine (h .chram (90 + i) ?_ (Or.inr (Or.inr ?_))).symm
    · exact lt_of_lt_of_le (by omega) (show 92 ≤ chRam.size by decide)
    · exact le_trans (le_of_eq (show chRam.offset "flags" + 2 = 90 by rw [chRam_flags]))
        (by omega)
  · intro h
    have hhigh : leBytes 2 (v / 2 ^ 16) =
        readBytes (putBytes (objs .chram) (chRam.offset "flags") (leBytes 2 v))
          (chRam.offset "reserved5") 2 := by
      have hold := leBytes_leNat (readBytes (objs .chram) (chRam.offset "reserved5") 2)
      rw [readBytes_length] at hold
      rw [readBytes_putBytes_outside _ _ _ _ _ (by rw [chRam_flags, chRam_reserved5]; simp),
        ← hold, ← h]
      rfl
    have hstore : flagsEntry.store objs (leBytes 4 v) = flagsEntry.store objs (leBytes 2 v) := by
      funext o
      by_cases ho : o = .chram
      · subst ho
        rw [flagsEntry_store, hhigh, putBytes_readBytes]
        exact (store_at flagsEntry objs (leBytes 2 v)).symm
      · have hne : o ≠ flagsEntry.object := ho
        rw [CompareMap.store, if_neg hne, CompareMap.store, if_neg hne]
    rw [hstore]
    exact changesOnly_store objs .chram ⟨"flags", 2⟩ typeU32 _ (leBytes_length 2 v)

theorem flags_mem : (⟨"flags", 2⟩ : Field) ∈ GpsignObject.chram.layout := by
  simp [GpsignObject.layout, chRam]

theorem flagsEntry_name : flagsEntry.name = flagsKey := by
  simp [flagsEntry, entryOf, fieldName, GpsignObject.name, flagsKey]

/-- A call changes the bytes of the field its key names and no other, except that of the
flags, whose upper half has to be in the reserved field already. -/
theorem changesOnly_iff (c : CompareMap GpsignObject) (hc : c ∈ variableMap) (o : GpsignObject)
    (f : Field) (hf : f ∈ o.layout) (hname : c.name = fieldName o f.name) (data : List UInt8) :
    ChangesOnly o f objs (compareEventhandler variableMap objs c.name data).2 ↔
      (c.name = flagsKey →
        ∀ z, taken (cText data) = some z → reserved5 objs = (scanned z).toNat / 2 ^ 16) := by
  have hfind := variableMap_find c hc
  obtain ⟨hkept, rfl⟩ := entry_of_name c hc o f hf hname
  have hnumeric : Numeric (entryOf (rowOf o f)).type := rowType_numeric o f
  rw [compareEventhandler_entry _ _ _ _ _ hfind, handleEntry_numeric _ _ _ hnumeric]
  cases htaken : taken (cText data) with
  | none => simp [ChangesOnly]
  | some z =>
    simp only [storeNumber_objects, Option.some.injEq, forall_eq']
    by_cases hflags : (o, f.name) = (.chram, "flags")
    · obtain ⟨rfl, hflagsName⟩ := Prod.mk.inj hflags
      obtain rfl := field_unique .chram f ⟨"flags", 2⟩ hf flags_mem hflagsName
      have hentry : entryOf (rowOf .chram ⟨"flags", 2⟩) = flagsEntry := by
        rw [rowOf, rowType, if_pos rfl, flagsEntry]
      simp only [hentry, flagsEntry_name, true_implies]
      exact changesOnly_flags_iff objs _ (scanned z).toNat_lt
    · have hkey : (entryOf (rowOf o f)).name ≠ flagsKey := by
        intro hkey
        obtain ⟨rfl, hflagsName⟩ := fieldName_injective o .chram f.name "flags"
          (layout_undotted o f hf) (layout_undotted .chram _ flags_mem)
          (hkey.trans flagsEntry_name.symm)
        exact hflags (by rw [hflagsName])
      have hwidth := typeWidth_rowType o f hf hkept hflags
      simp only [hkey, false_implies, iff_true]
      exact changesOnly_store objs o f (rowType o f) _ ((leBytes_length _ _).trans hwidth)

end Call

/-! ### Whole configurations -/

/-- The reserved fields of all structures are zero. -/
def ReservedZero (objs : Objects GpsignObject) : Prop :=
  ∀ o : GpsignObject, ∀ f ∈ reservedOf o.layout,
    readBytes (objs o) (o.layout.offset f.name) f.width = List.replicate f.width 0

/-- The number for the flags, if there is one, fits its field. -/
def FlagsFit (pair : Pair) : Prop :=
  pair.1 = flagsKey → ∀ z, taken (cText pair.2) = some z → (scanned z).toNat < 2 ^ 16

theorem flagsEntry_mem : flagsEntry ∈ variableMap := by
  rw [variableMap_eq]
  refine List.mem_map.mpr ⟨(.chram, "flags", typeU32), ?_, rfl⟩
  simp [rows, chramMembers]

theorem reserved5_mem : (⟨"reserved5", 2⟩ : Field) ∈ reservedOf chRam :=
  List.mem_filter.mpr ⟨by simp [chRam], by simp [isReserved]⟩

theorem reservedOf_loadaddr : reservedOf GpsignObject.loadaddr.layout = [] := by
  simp [reservedOf, isReserved, GpsignObject.layout]

theorem ReservedZero.reserved5 {objs : Objects GpsignObject} (h : ReservedZero objs) :
    reserved5 objs = 0 := by
  have hzero := h .chram ⟨"reserved5", 2⟩ reserved5_mem
  rw [SettingFrames.reserved5]
  exact congrArg leNat hzero

theorem ReservedZero.reset (m : Objects GpsignObject) : ReservedZero (resetObjects m) := by
  intro o f hf
  have hinside := Layout.offset_add_width_le o.layout (objectLayout_distinct o) f
    (List.mem_of_mem_filter hf)
  have hzero : o ≠ .loadaddr →
      resetObjects m o = putBytes (m o) 0 (List.replicate o.layout.size 0) := by
    intro ho
    cases o with
    | loadaddr => exact absurd rfl ho
    | _ => rfl
  by_cases ho : o = .loadaddr
  · subst ho
    rw [reservedOf_loadaddr] at hf
    cases hf
  · apply List.ext_getElem
    · simp
    · intro i hi _
      rw [readBytes_length] at hi
      have hat := putBytes_at (m o) 0 (List.replicate o.layout.size 0)
        (o.layout.offset f.name + i) (by rw [List.length_replicate]; omega)
      rw [getElem_readBytes, List.getElem_replicate, hzero ho]
      rw [Nat.zero_add, List.getElem_replicate] at hat
      exact hat

/-- A call that changes only a field with a key leaves the reserved fields alone. -/
theorem ReservedZero.changesOnly {objs objs' : Objects GpsignObject} (h : ReservedZero objs)
    (o : GpsignObject) (f : Field) (hf : f ∈ o.layout)
    (hkept : isReserved f.name = false) (hchanges : ChangesOnly o f objs objs') :
    ReservedZero objs' := by
  intro o' g hg
  obtain ⟨hmem, hreserved⟩ := List.mem_filter.mp hg
  have hinside := Layout.offset_add_width_le o'.layout (objectLayout_distinct o') g hmem
  rw [← h o' g hg]
  apply readBytes_congr
  intro i hi
  apply hchanges o' _ (by omega)
  by_cases ho : o' = o
  · subst ho
    have hapart := Layout.fields_apart o'.layout g f hmem hf (objectLayout_distinct o')
      fun heq => by simp [heq, hkept] at hreserved
    omega
  · exact Or.inl ho

/-- What a call for the flags stores. -/
theorem flags_stored (objs : Objects GpsignObject) (data : List UInt8) (z : ℤ)
    (hz : taken (cText data) = some z) :
    (compareEventhandler variableMap objs flagsKey data).2 =
      flagsEntry.store objs (leBytes 4 (scanned z).toNat) := by
  have hfind := variableMap_find flagsEntry flagsEntry_mem
  have hnumeric : Numeric flagsEntry.type := Or.inl rfl
  rw [flagsEntry_name] at hfind
  rw [compareEventhandler_entry _ _ _ _ _ hfind, handleEntry_numeric _ _ _ hnumeric, hz]
  exact storeNumber_objects flagsEntry objs (scanned z)

/-- With the reserved fields zero before a call, they are zero after it exactly if the
number for the flags fits. -/
theorem reservedZero_step (objs : Objects GpsignObject) (h : ReservedZero objs) (key : String)
    (data : List UInt8) :
    ReservedZero (compareEventhandler variableMap objs key data).2 ↔ FlagsFit (key, data) := by
  constructor
  · rintro hafter rfl z hz
    have hword := (scanned z).toNat_lt
    have hzero := hafter.reserved5
    rw [flags_stored objs data z hz, reserved5_flags objs _ hword] at hzero
    omega
  · intro hfit
    cases hfind : variableMap.find? (fun c => c.name == key) with
    | none =>
      rw [compareEventhandler_skip _ _ _ _ hfind]
      exact h
    | some c =>
      have hc := List.mem_of_find?_eq_some hfind
      have hkey : c.name = key := by simpa using List.find?_some hfind
      subst hkey
      obtain ⟨o, f, hf, hname⟩ := entry_has_field c hc
      obtain ⟨hkept, _⟩ := entry_of_name c hc o f hf hname
      apply h.changesOnly o f hf hkept
      rw [changesOnly_iff objs c hc o f hf hname]
      intro hflags z hz
      have hsmall := hfit hflags z hz
      rw [h.reserved5]
      omega

/-- The traversal comes to this pair after those before it. -/
def Handled (before : List Pair) (pair : Pair) (pairs : List Pair) : Prop :=
  before ++ [pair] <+: pairs ∧ ∀ p ∈ before, ¬ Rejected variableMap p

/-- The structures after the pairs of a configuration file. -/
def configured (pairs : List Pair) (m : Objects GpsignObject) : Objects GpsignObject :=
  (lcfgAccept variableMap pairs (resetObjects m)).2

theorem forall_handled_cons (head : Pair) (pairs : List Pair) (p : Pair → Prop) :
    (∀ before pair, Handled before pair (head :: pairs) → p pair) ↔
      p head ∧ (¬ Rejected variableMap head →
        ∀ before pair, Handled before pair pairs → p pair) := by
  constructor
  · intro h
    refine ⟨h [] head (by simp [Handled]), fun haccepted before pair hhandled => ?_⟩
    apply h (head :: before) pair
    refine ⟨List.cons_prefix_cons.mpr ⟨rfl, hhandled.1⟩, ?_⟩
    rw [List.forall_mem_cons]
    exact ⟨haccepted, hhandled.2⟩
  · rintro ⟨hhead, hrest⟩ before pair ⟨hbefore, haccepted⟩
    cases before with
    | nil =>
      obtain rfl : pair = head := by simpa using hbefore
      exact hhead
    | cons first before =>
      rw [List.cons_append, List.cons_prefix_cons] at hbefore
      rw [List.forall_mem_cons, hbefore.1] at haccepted
      exact hrest haccepted.1 before pair ⟨hbefore.2, haccepted.2⟩

/-- In every state a configuration reaches, the reserved fields are zero exactly if the
numbers for the flags fit. -/
theorem reservedZero_run (pairs : List Pair) (objs : Objects GpsignObject)
    (h : ReservedZero objs) :
    (∀ before, before <+: pairs → ReservedZero (lcfgAccept variableMap before objs).2) ↔
      ∀ before pair, Handled before pair pairs → FlagsFit pair := by
  induction pairs generalizing objs with
  | nil =>
    constructor
    · intro _ before pair hhandled
      simp [Handled] at hhandled
    · intro _ before hbefore
      rw [List.prefix_nil.mp hbefore]
      exact h
  | cons head pairs ih =>
    have hstep := reservedZero_step objs h head.1 head.2
    have hrejected := rejected_iff variableMap objs head
    rw [forall_handled_cons, forall_prefix_cons, ← hstep]
    simp only [lcfgAccept]
    cases hrun : compareEventhandler variableMap objs head.1 head.2 with
    | mk status objs' =>
      rw [hrun] at hrejected
      cases status with
      | ok =>
        have haccepted : ¬ Rejected variableMap head := by simp [hrejected]
        constructor
        · rintro ⟨_, hall⟩
          have hzero : ReservedZero objs' := hall [] List.nil_prefix
          exact ⟨hzero, fun _ => (ih objs' hzero).mp hall⟩
        · rintro ⟨hzero, hrest⟩
          exact ⟨h, (ih objs' hzero).mpr (hrest haccepted)⟩
      | error =>
        have hstop : Rejected variableMap head := hrejected.mpr rfl
        constructor
        · rintro ⟨_, hall⟩
          exact ⟨hall [] List.nil_prefix, fun haccepted => absurd hstop haccepted⟩
        · rintro ⟨hzero, _⟩
          exact ⟨h, fun _ _ => hzero⟩

/-- The header keeps the reserved fields of the structures it holds. -/
theorem header_reservedZero (objs : Objects GpsignObject) (h : ReservedZero objs)
    (chBuffer ch : Memory) (hch : fillupCh (platformOf objs) chBuffer = some (ch, 0))
    (s : Section) (hs : s ∈ present (platformOf objs)) (f : Field) (hf : f ∈ reservedOf s.layout) :
    readBytes ch (s.start + s.layout.offset f.name) f.width = List.replicate f.width 0 := by
  have hvalid : (settingsSection (platformOf objs)).valid ≠ 0 := by
    intro hvalid
    rw [fillupCh, if_pos hvalid] at hch
    simp at hch
  obtain ⟨ch', hch', hheader⟩ := fillupCh_header (platformOf objs) chBuffer hvalid
  obtain rfl : ch' = ch := by
    rw [hch] at hch'
    simpa using hch'.symm
  rw [(hheader.readBack (platformOf objs) s hs).fields f (List.mem_of_mem_filter hf)]
  have hmem := (present_sublist (platformOf objs)).subset hs
  simp only [sections, List.mem_cons, List.not_mem_nil, or_false] at hmem
  rcases hmem with rfl | rfl | rfl | rfl
  · exact h .chsettings f hf
  · exact h .chram f hf
  · exact h .chflash f hf
  · exact h .chmmcsd f hf

/-- A call of the handler changes only the field its key names, except one for
platform_chram.flags whose upper half is not in the reserved field behind it already;
the reserved fields are zero in every state a configuration reaches, and in the header
it leads to, exactly if all numbers for the flags fit. -/
theorem settings_change_own_fields_iff (objs : Objects GpsignObject) (pairs : List Pair)
    (m : Objects GpsignObject) :
    (∀ data, ∀ c ∈ variableMap, ∀ o, ∀ f ∈ o.layout, c.name = fieldName o f.name →
      (ChangesOnly o f objs (compareEventhandler variableMap objs c.name data).2 ↔
        (c.name = flagsKey → ∀ z, taken (cText data) = some z →
          reserved5 objs = (scanned z).toNat / 2 ^ 16))) ∧
    ((∀ before, before <+: pairs → ReservedZero (configured before m)) ↔
      ∀ before pair, Handled before pair pairs → FlagsFit pair) ∧
    (ReservedZero (configured pairs m) → ∀ chBuffer ch,
      fillupCh (platformOf (configured pairs m)) chBuffer = some (ch, 0) →
        ∀ s ∈ present (platformOf (configured pairs m)), ∀ f ∈ reservedOf s.layout,
          readBytes ch (s.start + s.layout.offset f.name) f.width = List.replicate f.width 0) := by
  refine ⟨fun data c hc o f hf hname => changesOnly_iff objs c hc o f hf hname data,
    reservedZero_run pairs _ (ReservedZero.reset m), ?_⟩
  intro hzero chBuffer ch hch s hs f hf
  exact header_reservedZero _ hzero chBuffer ch hch s hs f hf

/-- Flags with bit 16 set. -/
theorem flags_spill :
    ¬ ∀ objs : Objects GpsignObject, ∀ data, ∀ c ∈ variableMap, ∀ o, ∀ f ∈ o.layout,
      c.name = fieldName o f.name →
        ChangesOnly o f objs (compareEventhandler variableMap objs c.name data).2 := by
  intro h
  have hchanges := h (fun _ _ => 0) [0x31, 0x30, 0x30, 0x30, 0x30] flagsEntry flagsEntry_mem .chram
    ⟨"flags", 2⟩ flags_mem rfl
  rw [flagsEntry_name, flags_stored _ _ 0x10000 (by decide)] at hchanges
  have hreserved := (changesOnly_flags_iff _ _ (by decide)).mp hchanges
  rw [reserved5, chRam_reserved5] at hreserved
  exact absurd hreserved (by decide)

end OmapBootUtils.SettingFrames
