import OmapBootUtils.KeyedStores
import OmapBootUtils.SettingFrames

/-!
The order of the pairs in a configuration file of gpsign. The variables of its table
do not overlap, and its keys are distinct; so only the order of the values of one key
matters, and the last one that is stored remains.
-/
namespace OmapBootUtils.SettingOrder

open ByteMemory CString PackedLayout ConfigHandler HexNumeral ConfigValues ChSections ChHeader
  GpsignImage SettingFrames KeyedStores

/-! ### The handler as stores -/

section Handler
variable {ω : Type}

/-- What a value stores in the variable of an entry, unless the scan fails. -/
def stored (c : CompareMap ω) (data : List UInt8) : Option (List UInt8) :=
  if c.type = typeS then some (terminated (cText data))
  else if Numeric c.type then
    match sscanfHex (cText data) with
    | .failure => none
    | .eof => some (leBytes (typeWidth c.type) 0)
    | .number val => some (leBytes (typeWidth c.type) val.toNat)
  else none

/-- The bytes that a block at an address has for the memory. -/
def blockAt (start : ℕ) (bytes : List UInt8) (j : ℕ) : Option UInt8 :=
  if start ≤ j then bytes[j - start]? else none

/-- An entry with a number is stored in its width. -/
theorem stored_length (c : CompareMap ω) (h : Numeric c.type) (data bytes : List UInt8)
    (hstored : stored c data = some bytes) : bytes.length = typeWidth c.type := by
  rw [stored, if_neg h.ne_typeS, if_pos h] at hstored
  cases hscan : sscanfHex (cText data) with
  | failure => simp [hscan] at hstored
  | eof =>
    simp only [hscan, Option.some.injEq] at hstored
    rw [← hstored, leBytes_length]
  | number val =>
    simp only [hscan, Option.some.injEq] at hstored
    rw [← hstored, leBytes_length]

theorem putBytes_eq_blockAt (s : Memory) (start : ℕ) (bytes : List UInt8) (j : ℕ) :
    putBytes s start bytes j = (blockAt start bytes j).getD (s j) := by
  unfold putBytes blockAt
  split <;> rfl

theorem blockAt_ne_none (start : ℕ) (bytes : List UInt8) (j : ℕ)
    (h : blockAt start bytes j ≠ none) : start ≤ j ∧ j < start + bytes.length := by
  unfold blockAt at h
  split at h
  · next hle =>
    have hlt : j - start < bytes.length := by
      by_contra hge
      exact h (List.getElem?_eq_none (Nat.le_of_not_lt hge))
    exact ⟨hle, by omega⟩
  · exact absurd rfl h

variable [DecidableEq ω]

/-- A pair of the file as a store under its key. -/
def storeOf (table : List (CompareMap ω)) (pair : Pair) : Store String (ω × ℕ) UInt8 where
  key := pair.1
  write a := (table.find? fun c => c.name == pair.1).bind fun c =>
    if a.1 = c.object then (stored c pair.2).bind fun bytes => blockAt c.offset bytes a.2 else none

theorem handleEntry_objects (c : CompareMap ω) (objs : Objects ω) (data : List UInt8) :
    (handleEntry c objs data).2 = ((stored c data).map (c.store objs)).getD objs := by
  unfold handleEntry handleEntryOf stored
  split
  · rfl
  · split
    · cases sscanfHex (cText data) with
      | failure => rfl
      | eof => exact storeNumber_objects c objs 0
      | number val => exact storeNumber_objects c objs val
    · rfl

/-- A store writes in the variable of the entry with its key. -/
theorem storeOf_inside (table : List (CompareMap ω)) (hnumeric : ∀ c ∈ table, Numeric c.type)
    (pair : Pair) (a : ω × ℕ) (h : (storeOf table pair).write a ≠ none) :
    ∃ c ∈ table, c.name = pair.1 ∧ a.1 = c.object ∧
      c.offset ≤ a.2 ∧ a.2 < c.offset + typeWidth c.type := by
  cases hfind : table.find? (fun c => c.name == pair.1) with
  | none => simp [storeOf, hfind] at h
  | some c =>
    have hc := List.mem_of_find?_eq_some hfind
    have hname : c.name = pair.1 := by simpa using List.find?_some hfind
    simp only [storeOf, hfind, Option.bind_some] at h
    split at h
    · next hobject =>
      cases hstored : stored c pair.2 with
      | none => simp [hstored] at h
      | some bytes =>
        simp only [hstored, Option.bind_some] at h
        have hinside := blockAt_ne_none c.offset bytes a.2 h
        rw [stored_length c (hnumeric c hc) pair.2 bytes hstored] at hinside
        exact ⟨c, hc, hname, hobject, hinside⟩
    · exact absurd rfl h

theorem handler_objects (table : List (CompareMap ω)) (objs : Objects ω) (pair : Pair) :
    Function.uncurry (compareEventhandler table objs pair.1 pair.2).2 =
      (storeOf table pair).apply (Function.uncurry objs) := by
  funext a
  cases hfind : table.find? (fun c => c.name == pair.1) with
  | none =>
    rw [compareEventhandler_skip _ _ _ _ hfind]
    simp [Store.apply, storeOf, hfind]
  | some c =>
    rw [compareEventhandler_entry _ _ _ _ c hfind, handleEntry_objects]
    simp only [Store.apply, storeOf, hfind, Option.bind_some, Function.uncurry]
    cases stored c pair.2 with
    | none => simp
    | some bytes =>
      simp only [Option.map_some, Option.getD_some, Option.bind_some, CompareMap.store]
      split
      · exact putBytes_eq_blockAt _ _ _ _
      · rfl

/-- A traversal without an error is the run of its stores. -/
theorem lcfgAccept_objects (table : List (CompareMap ω)) (pairs : List Pair) (objs : Objects ω)
    (hok : (lcfgAccept table pairs objs).1 = .ok) :
    Function.uncurry (lcfgAccept table pairs objs).2 =
      KeyedStores.run (pairs.map (storeOf table)) (Function.uncurry objs) := by
  induction pairs generalizing objs with
  | nil => rfl
  | cons pair pairs ih =>
    have hstep := handler_objects table objs pair
    rw [List.map_cons, KeyedStores.run, ← hstep]
    rw [lcfgAccept] at hok ⊢
    cases hrun : compareEventhandler table objs pair.1 pair.2 with
    | mk status objs' =>
      rw [hrun] at hok
      cases status with
      | ok => exact ih objs' hok
      | error => cases hok

end Handler

/-! ### The table of gpsign -/

theorem variableMap_row (c : CompareMap GpsignObject) (hc : c ∈ variableMap) :
    ∃ o, ∃ f ∈ o.layout, isReserved f.name = false ∧ c = entryOf (rowOf o f) := by
  obtain ⟨o, f, hf, hname⟩ := entry_has_field c hc
  exact ⟨o, f, hf, entry_of_name c hc o f hf hname⟩

theorem variableMap_numeric (c : CompareMap GpsignObject) (hc : c ∈ variableMap) :
    Numeric c.type := by
  obtain ⟨o, f, _, _, rfl⟩ := variableMap_row c hc
  exact rowType_numeric o f

theorem width_pos (o : GpsignObject) (f : Field) (hf : f ∈ o.layout)
    (hkept : isReserved f.name = false) : 0 < f.width := by
  rcases (table_checked.2 o (mem_objects o) f hf).2 hkept with h | h | h <;> omega

/-- The row of a field ends before the next field with a row; the word of the flags
takes up the reserved field too. -/
theorem row_ends_before (o : GpsignObject) (f g : Field) (hf : f ∈ o.layout) (hg : g ∈ o.layout)
    (hfkept : isReserved f.name = false) (hgkept : isReserved g.name = false)
    (hne : f.name ≠ g.name) (hlt : o.layout.offset f.name ≤ o.layout.offset g.name) :
    o.layout.offset f.name + typeWidth (rowType o f) ≤ o.layout.offset g.name := by
  have hapart := Layout.fields_apart o.layout f g hf hg (objectLayout_distinct o) hne
  have hwidth := width_pos o g hg hgkept
  by_cases hflags : (o, f.name) = (.chram, "flags")
  · obtain ⟨rfl, hname⟩ := Prod.mk.inj hflags
    obtain rfl := field_unique .chram f ⟨"flags", 2⟩ hf flags_mem hname
    have hreserved : (⟨"reserved5", 2⟩ : Field) ∈ GpsignObject.chram.layout :=
      List.mem_of_mem_filter reserved5_mem
    have hother : g.name ≠ "reserved5" := by
      intro heq
      rw [heq] at hgkept
      exact absurd hgkept (by decide)
    have hbehind := Layout.fields_apart GpsignObject.chram.layout g ⟨"reserved5", 2⟩ hg hreserved
      (objectLayout_distinct .chram) hother
    have hstart : GpsignObject.chram.layout.offset "flags" = 88 := chRam_flags
    have hend : GpsignObject.chram.layout.offset "reserved5" = 90 := chRam_reserved5
    have hword : typeWidth (rowType .chram ⟨"flags", 2⟩) = 4 := rfl
    simp only [hstart, hend, hword] at hapart hbehind hlt ⊢
    omega
  · rw [typeWidth_rowType o f hf hfkept hflags]
    omega

/-- The variables of two keys do not overlap. -/
theorem entries_apart (c d : CompareMap GpsignObject) (hc : c ∈ variableMap)
    (hd : d ∈ variableMap) (hobject : c.object = d.object) (hne : c.name ≠ d.name) :
    c.offset + typeWidth c.type ≤ d.offset ∨ d.offset + typeWidth d.type ≤ c.offset := by
  obtain ⟨o, f, hf, hfkept, rfl⟩ := variableMap_row c hc
  obtain ⟨o', g, hg, hgkept, rfl⟩ := variableMap_row d hd
  obtain rfl : o = o' := hobject
  have hname : f.name ≠ g.name := by
    intro heq
    exact hne (congrArg (fieldName o) heq)
  rcases Nat.le_total (o.layout.offset f.name) (o.layout.offset g.name) with hle | hle
  · exact Or.inl (row_ends_before o f g hf hg hfkept hgkept hname hle)
  · exact Or.inr (row_ends_before o g f hg hf hgkept hfkept hname.symm hle)

theorem stores_apart (pairs : List Pair) : Apart (pairs.map (storeOf variableMap)) := by
  intro u hu v hv a hua hva
  obtain ⟨pair, _, rfl⟩ := List.mem_map.mp hu
  obtain ⟨pair', _, rfl⟩ := List.mem_map.mp hv
  obtain ⟨c, hc, hname, hobject, hinside⟩ :=
    storeOf_inside variableMap variableMap_numeric pair a hua
  obtain ⟨d, hd, hname', hobject', hinside'⟩ :=
    storeOf_inside variableMap variableMap_numeric pair' a hva
  by_contra hne
  have hnames : c.name ≠ d.name := by
    rw [hname, hname']
    exact hne
  have hapart := entries_apart c d hc hd (hobject.symm.trans hobject') hnames
  omega

/-! ### Whole configurations -/

/-- The same pairs, those of each key in the same order. -/
structure Reordered (pairs pairs' : List Pair) : Prop where
  perm : pairs'.Perm pairs
  sameKey : ∀ key, pairs'.filter (fun p => p.1 = key) = pairs.filter fun p => p.1 = key

def known (pair : Pair) : Bool := variableMap.any fun c => c.name == pair.1

/-- The variable of an entry holds what the last value for it left there that was stored,
and what it held before if none was. -/
structure HoldsLast (c : CompareMap GpsignObject) (pairs : List Pair)
    (objs objs' : Objects GpsignObject) : Prop where
  last : ∀ before data after bytes, pairs = before ++ (c.name, data) :: after →
    stored c data = some bytes → (∀ p ∈ after, p.1 = c.name → stored c p.2 = none) →
      readBytes (objs' c.object) c.offset (typeWidth c.type) = bytes
  initial : (∀ p ∈ pairs, p.1 = c.name → stored c p.2 = none) →
    readBytes (objs' c.object) c.offset (typeWidth c.type) =
      readBytes (objs c.object) c.offset (typeWidth c.type)

theorem storeOf_own (c : CompareMap GpsignObject) (hc : c ∈ variableMap) (data : List UInt8)
    (i : ℕ) :
    (storeOf variableMap (c.name, data)).write (c.object, c.offset + i) =
      (stored c data).bind fun bytes => bytes[i]? := by
  simp only [storeOf, variableMap_find c hc, Option.bind_some, if_true, blockAt,
    Nat.le_add_right, Nat.add_sub_cancel_left]

theorem storeOf_silent (c : CompareMap GpsignObject) (hc : c ∈ variableMap) (pair : Pair)
    (i : ℕ) (hi : i < typeWidth c.type) (h : pair.1 = c.name → stored c pair.2 = none) :
    (storeOf variableMap pair).write (c.object, c.offset + i) = none := by
  by_cases hkey : pair.1 = c.name
  · obtain ⟨key, data⟩ := pair
    obtain rfl : key = c.name := hkey
    rw [storeOf_own c hc, h rfl, Option.bind_none]
  · by_contra hwrite
    obtain ⟨d, hd, hname, hobject, hinside⟩ :=
      storeOf_inside variableMap variableMap_numeric pair _ hwrite
    have hnames : c.name ≠ d.name := by
      intro heq
      exact hkey (hname.symm.trans heq.symm)
    have hapart := entries_apart c d hc hd hobject hnames
    simp only at hinside
    omega

theorem holdsLast (pairs : List Pair) (objs : Objects GpsignObject)
    (hok : (lcfgAccept variableMap pairs objs).1 = .ok) (c : CompareMap GpsignObject)
    (hc : c ∈ variableMap) : HoldsLast c pairs objs (lcfgAccept variableMap pairs objs).2 := by
  have hrun := lcfgAccept_objects variableMap pairs objs hok
  constructor
  · intro before data after bytes hpairs hstored hafter
    have hlen := stored_length c (variableMap_numeric c hc) data bytes hstored
    apply List.ext_getElem
    · rw [readBytes_length, hlen]
    · intro i hi hi'
      rw [readBytes_length] at hi
      rw [getElem_readBytes]
      have hwrite : (storeOf variableMap (c.name, data)).write (c.object, c.offset + i) =
          some bytes[i] := by
        rw [storeOf_own c hc, hstored, Option.bind_some, List.getElem?_eq_getElem hi']
      rw [hpairs, List.map_append, List.map_cons, ← hpairs] at hrun
      refine (congrFun hrun (c.object, c.offset + i)).trans ?_
      apply run_last _ _ _ _ _ _ hwrite
      intro v hv
      obtain ⟨p, hp, rfl⟩ := List.mem_map.mp hv
      exact storeOf_silent c hc p i hi (hafter p hp)
  · intro hnone
    apply readBytes_congr
    intro i hi
    refine (congrFun hrun (c.object, c.offset + i)).trans ?_
    apply run_silent
    intro v hv
    obtain ⟨p, hp, rfl⟩ := List.mem_map.mp hv
    exact storeOf_silent c hc p i hi (hnone p hp)

theorem lcfgAccept_reordered (pairs pairs' : List Pair) (h : Reordered pairs pairs')
    (objs : Objects GpsignObject) (hok : (lcfgAccept variableMap pairs objs).1 = .ok) :
    lcfgAccept variableMap pairs' objs = lcfgAccept variableMap pairs objs := by
  have hok' : (lcfgAccept variableMap pairs' objs).1 = .ok := by
    rw [lcfgAccept_ok_iff] at hok ⊢
    intro p hp
    exact hok p (h.perm.mem_iff.mp hp)
  have hkeys : ∀ key, (pairs'.map (storeOf variableMap)).filter (fun u => u.key = key) =
      (pairs.map (storeOf variableMap)).filter fun u => u.key = key := by
    intro key
    rw [List.filter_map, List.filter_map]
    exact congrArg (List.map (storeOf variableMap)) (h.sameKey key)
  have hobjs := run_reordered _ _ (stores_apart pairs) hkeys (Function.uncurry objs)
  rw [← lcfgAccept_objects variableMap pairs objs hok,
    ← lcfgAccept_objects variableMap pairs' objs hok'] at hobjs
  exact Prod.ext (hok'.trans hok.symm) (Function.uncurry_injective hobjs)

theorem lcfgAccept_known (pairs : List Pair) (objs : Objects GpsignObject) :
    lcfgAccept variableMap (pairs.filter known) objs = lcfgAccept variableMap pairs objs := by
  induction pairs generalizing objs with
  | nil => rfl
  | cons pair pairs ih =>
    cases hknown : known pair with
    | true =>
      rw [List.filter_cons_of_pos hknown, lcfgAccept, lcfgAccept]
      cases compareEventhandler variableMap objs pair.1 pair.2 with
      | mk status objs' =>
        cases status with
        | ok => exact ih objs'
        | error => rfl
    | false =>
      have hnone : variableMap.find? (fun c => c.name == pair.1) = none := by
        apply List.find?_eq_none.mpr
        intro c hc hname
        have hany : known pair = true := List.any_eq_true.mpr ⟨c, hc, hname⟩
        rw [hknown] at hany
        cases hany
      rw [List.filter_cons_of_neg (by simp [hknown]), lcfgAccept,
        compareEventhandler_skip _ _ _ _ hnone]
      exact ih objs

/-- After a configuration without an error, the structures do not depend on the order of
the pairs across keys, every variable holds what was stored in it last, and the pairs
with unknown keys might have been left out. -/
theorem settings_order_irrelevant (pairs : List Pair) (m : Objects GpsignObject)
    (hok : (lcfgAccept variableMap pairs (resetObjects m)).1 = .ok) :
    (∀ pairs', Reordered pairs pairs' →
      lcfgAccept variableMap pairs' (resetObjects m) = (.ok, configured pairs m)) ∧
    (∀ c ∈ variableMap, HoldsLast c pairs (resetObjects m) (configured pairs m)) ∧
    lcfgAccept variableMap (pairs.filter known) (resetObjects m) =
      (.ok, configured pairs m) := by
  have hend : lcfgAccept variableMap pairs (resetObjects m) = (.ok, configured pairs m) :=
    Prod.ext hok rfl
  refine ⟨?_, holdsLast pairs (resetObjects m) hok, ?_⟩
  · intro pairs' h
    rw [lcfgAccept_reordered pairs pairs' h (resetObjects m) hok, hend]
  · rw [lcfgAccept_known, hend]

/-- An unknown key between two settings. -/
theorem settings_order_three :
    (∀ pairs', Reordered [("loadaddr", [0x31]), ("board", []), ("loadaddr", [])] pairs' →
      lcfgAccept variableMap pairs' (resetObjects fun _ _ => 0) =
        (.ok, configured [("loadaddr", [0x31]), ("board", []), ("loadaddr", [])]
          fun _ _ => 0)) ∧
    (∀ c ∈ variableMap, HoldsLast c [("loadaddr", [0x31]), ("board", []), ("loadaddr", [])]
      (resetObjects fun _ _ => 0)
      (configured [("loadaddr", [0x31]), ("board", []), ("loadaddr", [])] fun _ _ => 0)) ∧
    lcfgAccept variableMap ([("loadaddr", [0x31]), ("board", []), ("loadaddr", [])].filter known)
        (resetObjects fun _ _ => 0) =
      (.ok, configured [("loadaddr", [0x31]), ("board", []), ("loadaddr", [])] fun _ _ => 0) :=
  settings_order_irrelevant _ _ (by decide +kernel)

end OmapBootUtils.SettingOrder
