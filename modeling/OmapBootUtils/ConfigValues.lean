import OmapBootUtils.HexNumeral

/-!
What compare_eventhandler leaves in the variables of its table. It stores a number
before it looks at its range, and takes a blank value as 0; so a rejected value
can leave its low bits behind, and an accepted one need not be what was written.
-/
namespace OmapBootUtils.ConfigValues

open ByteMemory CString ConfigHandler HexNumeral

variable {ω : Type}

/-- The types of the entries with a number. -/
abbrev Numeric (type : ℕ) : Prop := type = typeU32 ∨ type = typeU16 ∨ type = typeU8

theorem Numeric.ne_typeS {type : ℕ} (h : Numeric type) : type ≠ typeS := by
  rcases h with rfl | rfl | rfl <;> decide

/-- The number a variable holds. -/
def value (c : CompareMap ω) (objs : Objects ω) : ℕ :=
  leNat (readBytes (objs c.object) c.offset (typeWidth c.type))

/-- The variable of an entry is the same before and after: its string or its number. -/
def SameVariable (c : CompareMap ω) (objs objs' : Objects ω) : Prop :=
  if c.type = typeS then
    ∀ limit, cString (objs' c.object) c.offset limit = cString (objs c.object) c.offset limit
  else value c objs' = value c objs

theorem SameVariable.refl (c : CompareMap ω) (objs : Objects ω) : SameVariable c objs objs := by
  unfold SameVariable
  split
  · exact fun _ => rfl
  · rfl

theorem sameVariable_numeric_iff (c : CompareMap ω) (objs objs' : Objects ω) (h : Numeric c.type) :
    SameVariable c objs objs' ↔ value c objs' = value c objs := by
  rw [SameVariable, if_neg h.ne_typeS]

theorem typeWidth_bound (type : ℕ) (h : Numeric type) :
    (maxVal type).toNat + 1 = 256 ^ typeWidth type := by
  rcases h with rfl | rfl | rfl <;> rfl

variable [DecidableEq ω]

section Store
variable (c : CompareMap ω) (objs : Objects ω)

theorem store_at (bytes : List UInt8) :
    c.store objs bytes c.object = putBytes (objs c.object) c.offset bytes := by
  rw [CompareMap.store, if_pos rfl]

/-- The variable holds what fits of the number stored last. -/
theorem value_store (v : ℕ) :
    value c (c.store objs (leBytes (typeWidth c.type) v)) = v % 256 ^ typeWidth c.type := by
  have hread := readBytes_putBytes (objs c.object) c.offset (leBytes (typeWidth c.type) v)
  rw [leBytes_length] at hread
  rw [value, store_at, hread, leNat_leBytes]

/-- Storing the low bytes of what the variable holds changes nothing. -/
theorem store_value (v : ℕ) (h : v % 256 ^ typeWidth c.type = value c objs) :
    c.store objs (leBytes (typeWidth c.type) v) = objs := by
  have hbytes : leBytes (typeWidth c.type) v =
      readBytes (objs c.object) c.offset (typeWidth c.type) := by
    have hlow := leBytes_leNat (leBytes (typeWidth c.type) v)
    have hold := leBytes_leNat (readBytes (objs c.object) c.offset (typeWidth c.type))
    rw [leBytes_length, leNat_leBytes, h] at hlow
    rw [readBytes_length] at hold
    exact hlow.symm.trans hold
  funext o
  rw [CompareMap.store]
  split
  · next ho =>
    subst ho
    rw [hbytes]
    exact putBytes_readBytes _ _ _
  · rfl

theorem storeNumber_status (val : UInt32) :
    (storeNumber c objs val).1 = if val > maxVal c.type then .error else .ok := by
  unfold storeNumber
  split <;> rfl

theorem storeNumber_objects (val : UInt32) :
    (storeNumber c objs val).2 = c.store objs (leBytes (typeWidth c.type) val.toNat) := by
  unfold storeNumber
  split <;> rfl

end Store

section Handler
variable (table : List (CompareMap ω)) (objs : Objects ω) (key : String) (data : List UInt8)
variable (c : CompareMap ω)

/-- What the handler takes from a value: 0 from a blank one, the number it denotes from
any other. -/
def taken (str : List UInt8) : Option ℤ := if Blank str then some 0 else hexNumber str

theorem handleEntryOf_number (form : ℤ → UInt32) (h : Numeric c.type) (z : ℤ)
    (hnumber : hexNumber (cText data) = some z) :
    handleEntryOf (scanBy form) c objs data = storeNumber c objs (form z) := by
  have hblank : ¬ Blank (cText data) := fun hblank => by
    rw [hexNumber_blank _ hblank] at hnumber
    cases hnumber
  rw [handleEntryOf, if_neg h.ne_typeS, if_pos h, scanBy, if_neg hblank, hnumber]

theorem handleEntryOf_blank (form : ℤ → UInt32) (h : Numeric c.type)
    (hblank : Blank (cText data)) :
    handleEntryOf (scanBy form) c objs data = storeNumber c objs 0 := by
  rw [handleEntryOf, if_neg h.ne_typeS, if_pos h, scanBy, if_pos hblank]

theorem handleEntryOf_unread (form : ℤ → UInt32) (h : Numeric c.type)
    (hblank : ¬ Blank (cText data)) (hnumber : hexNumber (cText data) = none) :
    handleEntryOf (scanBy form) c objs data = (.ok, objs) := by
  rw [handleEntryOf, if_neg h.ne_typeS, if_pos h, scanBy, if_neg hblank, hnumber]

theorem handleEntry_eq : handleEntry c objs data = handleEntryOf (scanBy scanned) c objs data := by
  rw [handleEntry, sscanfHex_eq]

theorem handleEntry_numeric (h : Numeric c.type) :
    handleEntry c objs data = match taken (cText data) with
      | some z => storeNumber c objs (scanned z)
      | none => (.ok, objs) := by
  rw [handleEntry_eq, taken]
  by_cases hblank : Blank (cText data)
  · rw [if_pos hblank]
    exact handleEntryOf_blank objs data c scanned h hblank
  · rw [if_neg hblank]
    cases hnumber : hexNumber (cText data) with
    | none => exact handleEntryOf_unread objs data c scanned h hblank hnumber
    | some z => exact handleEntryOf_number objs data c scanned h z hnumber

/-- The handler over a scan that stores numbers in this form. -/
abbrev handlerBy (form : ℤ → UInt32) : LcfgStatus × Objects ω :=
  compareEventhandlerOf (scanBy form) table objs key data

/-- The handler of compare.h is the one whose scan saturates. -/
theorem compareEventhandler_eq :
    compareEventhandler table objs key data = handlerBy table objs key data scanned := by
  rw [compareEventhandler, handlerBy, sscanfHex_eq]

theorem compareEventhandler_skip (h : table.find? (fun c => c.name == key) = none) :
    compareEventhandler table objs key data = (.ok, objs) := by
  simp only [compareEventhandler, compareEventhandlerOf, h]

theorem compareEventhandlerOf_entry (sscanf : List UInt8 → ScanResult)
    (h : table.find? (fun c => c.name == key) = some c) :
    compareEventhandlerOf sscanf table objs key data = handleEntryOf sscanf c objs data := by
  simp only [compareEventhandlerOf, h]

theorem compareEventhandler_entry (h : table.find? (fun c => c.name == key) = some c) :
    compareEventhandler table objs key data = handleEntry c objs data :=
  compareEventhandlerOf_entry table objs key data c sscanfHex h

/-! ### Rejected values -/

/-- A rejected value leaves every variable of the table as it was. -/
def LeavesNoTrace : Prop :=
  (compareEventhandler table objs key data).1 = .error →
    ∀ c ∈ table, SameVariable c objs (compareEventhandler table objs key data).2

/-- The value denotes a number that is beyond the entry in the form it is stored in. -/
def TooLarge (form : ℤ → UInt32) (str : List UInt8) (z : ℤ) : Prop :=
  hexNumber str = some z ∧ maxVal c.type < form z

/-- An error of a numeric entry comes from a number that is too large, after the store. -/
theorem handleEntry_error (h : Numeric c.type) (herror : (handleEntry c objs data).1 = .error) :
    ∃ z, TooLarge c scanned (cText data) z ∧ (handleEntry c objs data).2 =
      c.store objs (leBytes (typeWidth c.type) (scanned z).toNat) := by
  rw [handleEntry_eq] at herror ⊢
  by_cases hblank : Blank (cText data)
  · have hzero : ¬ maxVal c.type < 0 := by simp [UInt32.lt_iff_toNat_lt]
    rw [handleEntryOf_blank objs data c scanned h hblank, storeNumber_status,
      if_neg hzero] at herror
    cases herror
  · cases hnumber : hexNumber (cText data) with
    | none =>
      rw [handleEntryOf_unread objs data c scanned h hblank hnumber] at herror
      cases herror
    | some z =>
      rw [handleEntryOf_number objs data c scanned h z hnumber] at herror ⊢
      rw [storeNumber_status] at herror
      by_cases hlarge : maxVal c.type < scanned z
      · exact ⟨z, ⟨hnumber, hlarge⟩, storeNumber_objects c objs _⟩
      · rw [if_neg hlarge] at herror
        cases herror

theorem handleEntryOf_tooLarge (form : ℤ → UInt32) (h : Numeric c.type) (z : ℤ)
    (hlarge : TooLarge c form (cText data) z) :
    handleEntryOf (scanBy form) c objs data =
      (.error, c.store objs (leBytes (typeWidth c.type) (form z).toNat)) := by
  obtain ⟨hnumber, hlarge⟩ := hlarge
  rw [handleEntryOf_number objs data c form h z hnumber]
  simp only [storeNumber, gt_iff_lt, if_pos hlarge]

/-- A rejected value leaves no trace exactly if it is not too large for an entry with
a number, or the variable holds its low bits already. -/
theorem leavesNoTrace_iff :
    LeavesNoTrace table objs key data ↔
      ∀ c, table.find? (fun c => c.name == key) = some c → Numeric c.type →
        ∀ z, TooLarge c scanned (cText data) z →
          (scanned z).toNat % 256 ^ typeWidth c.type = value c objs := by
  constructor
  · intro h c hc hnumeric z hlarge
    have hrun := (compareEventhandler_eq table objs key data).trans
      ((compareEventhandlerOf_entry table objs key data c _ hc).trans
        (handleEntryOf_tooLarge objs data c scanned hnumeric z hlarge))
    have hsame := h (by rw [hrun]) c (List.mem_of_find?_eq_some hc)
    rw [hrun, sameVariable_numeric_iff c objs _ hnumeric, value_store] at hsame
    exact hsame
  · intro h herror d _
    cases hc : table.find? (fun c => c.name == key) with
    | none =>
      rw [compareEventhandler_skip table objs key data hc] at herror
      cases herror
    | some c =>
      have hrun := compareEventhandler_entry table objs key data c hc
      rw [hrun] at herror ⊢
      by_cases hnumeric : Numeric c.type
      · obtain ⟨z, hlarge, hobjs⟩ := handleEntry_error objs data c hnumeric herror
        rw [hobjs, store_value c objs _ (h c hc hnumeric z hlarge)]
        exact SameVariable.refl d objs
      · by_cases hstring : c.type = typeS
        · rw [handleEntry, handleEntryOf, if_pos hstring] at herror
          cases herror
        · rw [handleEntry, handleEntryOf, if_neg hstring, if_neg hnumeric]
          exact SameVariable.refl d objs

/-- A flag of one byte that is cleared and then set to 0x1FF. -/
theorem rejected_value_stored :
    ¬ ∀ (table : List (CompareMap Unit)) objs key data, LeavesNoTrace table objs key data := by
  intro h
  have htrace := h [⟨"valid", (), 0, typeU8⟩] (fun _ _ => 0) "valid" [0x31, 0x46, 0x46]
    (by decide) ⟨"valid", (), 0, typeU8⟩ (by simp)
  rw [sameVariable_numeric_iff _ _ _ (by decide)] at htrace
  exact absurd htrace (by decide)

/-! ### Accepted values -/

/-- What the result of the handler owes to the number in the value: an accepted value
is stored as it is or not at all, one without a number changes nothing, and one
beyond the entry is not accepted. -/
structure StoredExactly (str : List UInt8) (ret : LcfgStatus × Objects ω) : Prop where
  exact : ret.1 = .ok →
    value c ret.2 = value c objs ∨ hexNumber str = some (value c ret.2 : ℤ)
  unread : hexNumber str = none → value c ret.2 = value c objs
  bounded : ∀ z, hexNumber str = some z → ((maxVal c.type).toNat : ℤ) < z → ret.1 = .error

theorem storedExactly_blank_iff (form : ℤ → UInt32) (h : Numeric c.type)
    (hblank : Blank (cText data)) :
    StoredExactly objs c (cText data) (handleEntryOf (scanBy form) c objs data) ↔
      value c objs = 0 := by
  have hnumber := hexNumber_blank _ hblank
  have hvalue : value c (storeNumber c objs 0).2 = 0 := by
    rw [storeNumber_objects, value_store]
    simp
  rw [handleEntryOf_blank objs data c form h hblank]
  constructor
  · intro hexact
    exact (hexact.unread hnumber).symm.trans hvalue
  · intro hzero
    refine ⟨fun _ => Or.inl (hvalue.trans hzero.symm), fun _ => hvalue.trans hzero.symm, ?_⟩
    intro z hz
    rw [hnumber] at hz
    cases hz

theorem storedExactly_number_iff (form : ℤ → UInt32) (hform : KeepsWords form)
    (h : Numeric c.type) (z : ℤ) (hnumber : hexNumber (cText data) = some z)
    (hfits : ¬ maxVal c.type < form z) :
    StoredExactly objs c (cText data) (handleEntryOf (scanBy form) c objs data) ↔
      (form z).toNat = z ∨ z < 0 ∧ value c objs = (form z).toNat := by
  have hbound := typeWidth_bound c.type h
  have hle : (form z).toNat ≤ (maxVal c.type).toNat := by
    rwa [UInt32.lt_iff_toNat_lt, Nat.not_lt] at hfits
  have hvalue : value c (storeNumber c objs (form z)).2 = (form z).toNat := by
    rw [storeNumber_objects, value_store, Nat.mod_eq_of_lt (by omega)]
  have hstatus : (storeNumber c objs (form z)).1 = .ok := by
    rw [storeNumber_status, if_neg hfits]
  have hkept := hform z
  have hword := (maxVal c.type).toNat_lt
  rw [handleEntryOf_number objs data c form h z hnumber]
  constructor
  · intro hexact
    have hstored := hexact.exact hstatus
    have hmax : z ≤ (maxVal c.type).toNat := by
      by_contra hover
      have herror := hexact.bounded z hnumber (by omega)
      rw [hstatus] at herror
      cases herror
    rw [hvalue, hnumber, Option.some.injEq] at hstored
    omega
  · intro hexact
    refine ⟨fun _ => ?_, fun hnone => ?_, fun y hy hlt => ?_⟩
    · rw [hvalue, hnumber, Option.some.injEq]
      omega
    · rw [hnumber] at hnone
      cases hnone
    · rw [hnumber, Option.some.injEq] at hy
      omega

/-- An accepted number is stored exactly if its form is the number itself and the value
is not blank, or if the variable holds already what is stored in its place. -/
theorem storedExactly_iff (form : ℤ → UInt32) (hform : KeepsWords form)
    (hentry : table.find? (fun c => c.name == key) = some c) (h : Numeric c.type) :
    StoredExactly objs c (cText data) (handlerBy table objs key data form) ↔
      (Blank (cText data) → value c objs = 0) ∧
        ∀ z, hexNumber (cText data) = some z → ¬ TooLarge c form (cText data) z →
          (form z).toNat = z ∨ z < 0 ∧ value c objs = (form z).toNat := by
  rw [handlerBy, compareEventhandlerOf_entry table objs key data c _ hentry]
  by_cases hblank : Blank (cText data)
  · have hnumber := hexNumber_blank _ hblank
    rw [storedExactly_blank_iff objs data c form h hblank, hnumber]
    simp only [reduceCtorEq, false_implies, implies_true, and_true]
    exact ⟨fun hzero _ => hzero, fun hzero => hzero hblank⟩
  · cases hnumber : hexNumber (cText data) with
    | none =>
      rw [handleEntryOf_unread objs data c form h hblank hnumber]
      simp only [hblank, false_implies, reduceCtorEq, implies_true, and_self, iff_true]
      exact ⟨fun _ => Or.inl rfl, fun _ => rfl, by simp [hnumber]⟩
    | some z =>
      by_cases hlarge : maxVal c.type < form z
      · rw [handleEntryOf_tooLarge objs data c form h z ⟨hnumber, hlarge⟩]
        refine iff_of_true ⟨?_, ?_, fun _ _ _ => rfl⟩ ⟨fun h => absurd h hblank, ?_⟩
        · simp
        · simp [hnumber]
        · intro y hy hfits
          rw [Option.some.injEq] at hy
          subst hy
          exact absurd ⟨hnumber, hlarge⟩ hfits
      · rw [storedExactly_number_iff objs data c form hform h z hnumber hlarge]
        constructor
        · intro hexact
          refine ⟨fun h => absurd h hblank, fun y hy _ => ?_⟩
          rw [Option.some.injEq] at hy
          rwa [← hy]
        · intro hexact
          exact hexact.2 z rfl fun h => hlarge h.2

/-- The text 0x100000010, which is stored as 0x10. -/
def longNumber : List UInt8 :=
  [0x30, 0x78, 0x31, 0x30, 0x30, 0x30, 0x30, 0x30, 0x30, 0x31, 0x30]

/-- A register of two bytes behind a flag. -/
def registerTable : List (CompareMap Unit) :=
  [⟨"valid", (), 2, typeU8⟩, ⟨"flags", (), 0, typeU16⟩]

theorem storedExactly_register :
    (StoredExactly (fun _ _ => 0) ⟨"flags", (), 0, typeU16⟩ (cText longNumber)
        (handlerBy registerTable (fun _ _ => 0) "flags" longNumber reduced) ↔
      (Blank (cText longNumber) → value ⟨"flags", (), 0, typeU16⟩ (fun _ _ => 0) = 0) ∧
        ∀ z, hexNumber (cText longNumber) = some z →
          ¬ TooLarge (⟨"flags", (), 0, typeU16⟩ : CompareMap Unit) reduced (cText longNumber) z →
          (reduced z).toNat = z ∨
            z < 0 ∧ value ⟨"flags", (), 0, typeU16⟩ (fun _ _ => 0) = (reduced z).toNat) ∧
    (StoredExactly (fun _ _ => 0) ⟨"flags", (), 0, typeU16⟩ (cText longNumber)
        (compareEventhandler registerTable (fun _ _ => 0) "flags" longNumber) ↔
      (Blank (cText longNumber) → value ⟨"flags", (), 0, typeU16⟩ (fun _ _ => 0) = 0) ∧
        ∀ z, hexNumber (cText longNumber) = some z →
          ¬ TooLarge (⟨"flags", (), 0, typeU16⟩ : CompareMap Unit) scanned (cText longNumber) z →
          (scanned z).toNat = z ∨
            z < 0 ∧ value ⟨"flags", (), 0, typeU16⟩ (fun _ _ => 0) = (scanned z).toNat) := by
  refine ⟨storedExactly_iff registerTable (fun _ _ => 0) "flags" longNumber
    ⟨"flags", (), 0, typeU16⟩ reduced reduced_keepsWords (by decide) (by decide), ?_⟩
  rw [compareEventhandler_eq]
  exact storedExactly_iff registerTable (fun _ _ => 0) "flags" longNumber
    ⟨"flags", (), 0, typeU16⟩ scanned scanned_keepsWords (by decide) (by decide)

/-- A flag that is set and then given an empty value. -/
theorem blank_value_stored :
    ¬ ∀ (table : List (CompareMap Unit)) objs key data c,
      table.find? (fun c => c.name == key) = some c → Numeric c.type →
        StoredExactly objs c (cText data) (handlerBy table objs key data reduced) := by
  intro h
  have hexact := h [⟨"valid", (), 0, typeU8⟩] (fun _ _ => 1) "valid" []
    ⟨"valid", (), 0, typeU8⟩ (by decide) (by decide)
  exact absurd (hexact.unread rfl) (by decide)

end Handler

end OmapBootUtils.ConfigValues
