import OmapBootUtils.ConfigText
import OmapBootUtils.SettingOrder
import Mathlib.Data.List.Nodup

/-!
What the settings of a document leave in the variables of a table. Whatever the text
of the document looks like and whatever blocks it is read in, a variable holds the
last value on its way through the document that could be stored.
-/
namespace OmapBootUtils.DocumentSettings

open ByteMemory CString ConfigHandler GrowingString HexNumeral ConfigValues SettingOrder
  KeyedStores JoinedWords LcfgScanner ScannedText LexicalGrammar LcfgParser ConfigGrammar
  ConfigKeys ConfigEval ConfigText

/-! ### From a file to its pairs -/

/-- A key as a table has it. -/
def keyString (key : List UInt8) : String := String.ofList (key.map fun c => Char.ofNat c.toNat)

def pairOf (entry : Entry) : Pair := (keyString entry.1, entry.2)

/-- What lcfg_parse makes of the file of lcfg_new. -/
def configFile (file : ℕ ⊕ List ReadResult) : Option ConfigFile :=
  (parserRun file).map fun parsed => match parsed.status with
    | .ok => .parsed (parsed.values.map pairOf)
    | .error => .notParsed

/-- The text is one of the document, in any spelling. -/
def Describes (text : List UInt8) (settings : Settings) : Prop :=
  ∃ ts e, Lexes [] ⟨1, 1⟩ none text (streamOf ts (.done e)) ∧ SpellsSettings settings ts

theorem describes_write (settings : Settings) (h : NamedSettings settings) :
    Describes (writeSettings settings) settings := by
  obtain ⟨ts, last, htokens, hspell⟩ := reads_settings settings h [] [] ⟨1, 1⟩ none
  rw [List.append_nil] at htokens
  exact ⟨ts, none, (lexes_iff [] ⟨1, 1⟩ none _ _).mpr htokens, hspell⟩

/-- The ways and values of a document. -/
abbrev flat (settings : Settings) : List (List (List UInt8) × List UInt8) :=
  flatSettings [] settings

def pairsOf (settings : Settings) : List Pair := (keyed (flat settings)).map pairOf

theorem parserRun_document (text : List UInt8) (settings : Settings) (reads : List ReadResult)
    (h : Describes text settings) (hplain : PlainSettings settings)
    (hreads : delivered reads = some text) :
    ∃ e, parserRun (.inr reads) = some ⟨.ok, keyed (flat settings), e⟩ := by
  obtain ⟨ts, e, hlexes, hspell⟩ := h
  have heval := eval_plainSettings [] settings (fun w hw => by cases hw) hplain
  rw [joined_nil] at heval
  refine ⟨e, ?_⟩
  rw [parserRun_delivered reads text hreads, parse_document text ts settings e hlexes hspell, heval]
  rfl

theorem configFile_document (text : List UInt8) (settings : Settings) (reads : List ReadResult)
    (h : Describes text settings) (hplain : PlainSettings settings)
    (hreads : delivered reads = some text) :
    configFile (.inr reads) = some (.parsed (pairsOf settings)) := by
  obtain ⟨e, hrun⟩ := parserRun_document text settings reads h hplain hreads
  rw [configFile, hrun]
  rfl

theorem keyString_injective (key key' : List UInt8) (h : keyString key = keyString key') :
    key = key' := by
  have hchars : key.map (fun c => Char.ofNat c.toNat) = key'.map fun c => Char.ofNat c.toNat :=
    String.ofList_injective h
  apply List.map_injective_iff.mpr _ hchars
  intro c d hcd
  have hvalid : ∀ c : UInt8, (Char.ofNat c.toNat).toNat = c.toNat := by
    apply forall_byte
    decide +kernel
  apply UInt8.toNat_inj.mp
  rw [← hvalid c, ← hvalid d]
  exact congrArg Char.toNat hcd

/-! ### Tables -/

/-- The words of a name with dots. -/
def wordsOf (name : String) : List (List UInt8) :=
  (name.toList.splitOn '.').map fun word => word.map fun c => UInt8.ofNat c.toNat

/-- The key is a way through a document. -/
def Way (name : String) : Prop :=
  KeyWords (wordsOf name) ∧ name = keyString (joined dot (wordsOf name))

/-- What stands between the dots of a name. -/
def Part (word : List Char) : Prop :=
  word ≠ [] ∧ ∀ c ∈ word, c ≠ '.' ∧ 0 < c.toNat ∧ c.toNat < 256

instance (word : List Char) : Decidable (Part word) :=
  @instDecidableAnd _ _ inferInstance (List.decidableBAll _ word)

theorem map_intercalate {α β : Type} (f : α → β) (sep : List α) (words : List (List α)) :
    (sep.intercalate words).map f = (sep.map f).intercalate (words.map (List.map f)) := by
  induction words with
  | nil => rfl
  | cons w words ih =>
    cases words with
    | nil => simp
    | cons v words =>
      rw [List.intercalate_cons_cons, List.map_append, ih]
      simp

theorem way_of_parts (name : String) (parts : List (List Char)) (h : ∀ w ∈ parts, Part w)
    (hne : parts ≠ []) (hname : name.toList = ['.'].intercalate parts) : Way name := by
  have hbyte : ∀ w ∈ parts, ∀ c ∈ w, (UInt8.ofNat c.toNat).toNat = c.toNat := by
    intro w hw c hc
    have hsmall := ((h w hw).2 c hc).2.2
    rw [UInt8.toNat_ofNat']
    omega
  have hwords : wordsOf name = parts.map fun word => word.map fun c => UInt8.ofNat c.toNat := by
    rw [wordsOf, hname,
      List.splitOn_intercalate '.' (fun w hw hdot => ((h w hw).2 _ hdot).1 rfl) hne]
  have hkey : KeyWords (wordsOf name) := by
    intro v hv
    rw [hwords] at hv
    obtain ⟨w, hw, rfl⟩ := List.mem_map.mp hv
    have hnone : ∀ b : UInt8, (∀ c ∈ w, c.toNat ≠ b.toNat) →
        b ∉ w.map fun c => UInt8.ofNat c.toNat := by
      intro b hb hmem
      obtain ⟨c, hc, rfl⟩ := List.mem_map.mp hmem
      exact hb c hc (hbyte w hw c hc).symm
    refine ⟨⟨by simpa using (h w hw).1, hnone dot ?_⟩, hnone 0 ?_⟩
    · intro c hc hdot
      exact ((h w hw).2 c hc).1 (Char.ext (UInt32.toNat_inj.mp hdot))
    · intro c hc hzero
      have hpos := ((h w hw).2 c hc).2.1
      rw [hzero] at hpos
      exact absurd hpos (by decide)
  refine ⟨hkey, ?_⟩
  -- a character of a part is that of its byte
  have hback : ∀ w ∈ parts, (w.map fun c => UInt8.ofNat c.toNat).map
      (fun b => Char.ofNat b.toNat) = w := by
    intro w hw
    rw [List.map_map]
    apply (List.map_congr_left _).trans (List.map_id w)
    intro c hc
    simp [hbyte w hw c hc]
  have hchars : (joined dot (wordsOf name)).map (fun b => Char.ofNat b.toNat) = name.toList := by
    rw [joined_eq_intercalate dot _ (fun w hw => (hkey w hw).1.1), map_intercalate, hwords,
      List.map_map, hname]
    congr 1
    exact (List.map_congr_left hback).trans (List.map_id parts)
  rw [keyString, hchars, String.ofList_toList]

/-- A table whose keys are ways through a document, and whose variables have room of
their own. -/
structure SettingTable (ω : Type) where
  rows : List (CompareMap ω)
  room : CompareMap ω → ℕ
  named : ∀ c ∈ rows, Way c.name
  found : ∀ c ∈ rows, rows.find? (fun d => d.name == c.name) = some c
  apart : ∀ c ∈ rows, ∀ d ∈ rows, c.name ≠ d.name → c.object = d.object →
    c.offset + room c ≤ d.offset ∨ d.offset + room d ≤ c.offset

namespace SettingTable

variable {ω : Type} (T : SettingTable ω)

/-- A way of a document leads to the row with its words. -/
theorem name_eq_iff (c : CompareMap ω) (hc : c ∈ T.rows) (words : List (List UInt8))
    (hwords : KeyWords words) : c.name = keyString (joined dot words) ↔ words = wordsOf c.name := by
  obtain ⟨hkey, hname⟩ := T.named c hc
  constructor
  · intro h
    rw [hname] at h
    exact (joined_injective dot _ _ (fun w hw => (hkey w hw).1) (fun w hw => (hwords w hw).1)
      (keyString_injective _ _ h)).symm
  · intro h
    rw [hname, ← h]

end SettingTable

/-! ### The last value -/

section Last
variable {α β : Type}

/-- The last result a list has. -/
def findLast (f : α → Option β) (l : List α) : Option β := l.reverse.findSome? f

theorem findLast_eq_some_iff (f : α → Option β) (l : List α) (b : β) :
    findLast f l = some b ↔ ∃ before x after, l = before ++ x :: after ∧ f x = some b ∧
      ∀ y ∈ after, f y = none := by
  rw [findLast, List.findSome?_eq_some_iff]
  constructor
  · intro h
    obtain ⟨after, x, before, hsplit, hx, hafter⟩ := h
    refine ⟨before.reverse, x, after.reverse, ?_, hx, by simpa using hafter⟩
    rw [← List.reverse_reverse l, hsplit]
    simp
  · intro h
    obtain ⟨before, x, after, hsplit, hx, hafter⟩ := h
    exact ⟨after.reverse, x, before.reverse, by simp [hsplit], hx, by simpa using hafter⟩

theorem findLast_eq_none_iff (f : α → Option β) (l : List α) :
    findLast f l = none ↔ ∀ x ∈ l, f x = none := by
  simp [findLast, List.findSome?_eq_none_iff]

theorem findLast_map {γ : Type} (f : α → Option β) (g : β → γ) (l : List α) :
    findLast (fun x => (f x).map g) l = (findLast f l).map g := by
  rw [findLast, findLast, List.map_findSome?]
  rfl

end Last

/-- The last value on a way that is not left out. -/
def lastOn {β : Type} (settings : Settings) (words : List (List UInt8))
    (f : List UInt8 → Option β) : Option β :=
  findLast (fun r => if r.1 = words then f r.2 else none) (flat settings)

theorem lastOn_map {β γ : Type} (settings : Settings) (words : List (List UInt8))
    (f : List UInt8 → Option β) (g : β → γ) :
    lastOn settings words (fun data => (f data).map g) = (lastOn settings words f).map g := by
  rw [lastOn, lastOn, ← findLast_map]
  congr 1
  funext r
  split <;> rfl

/-- The number on a way: the last value that denotes one, where a blank one denotes 0. -/
def numberOn (settings : Settings) (words : List (List UInt8)) : Option UInt32 :=
  lastOn settings words fun data => (taken (cText data)).map scanned

def textOn (settings : Settings) (words : List (List UInt8)) : Option (List UInt8) :=
  lastOn settings words fun data => some (cText data)

/-! ### The traversal -/

theorem stored_numeric {ω : Type} (c : CompareMap ω) (h : Numeric c.type) (data : List UInt8) :
    stored c data = (taken (cText data)).map fun z =>
      leBytes (typeWidth c.type) (scanned z).toNat := by
  rw [stored, if_neg h.ne_typeS, if_pos h, sscanfHex_eq, scanBy, taken]
  by_cases hblank : Blank (cText data)
  · rw [if_pos hblank, if_pos hblank]
    rfl
  · rw [if_neg hblank, if_neg hblank]
    cases hexNumber (cText data) <;> rfl

namespace SettingTable

variable {ω : Type} [DecidableEq ω] (T : SettingTable ω) (settings : Settings)

/-- No value is longer than the room of its variable. -/
def Fits : Prop := ∀ c ∈ T.rows, ∀ r ∈ flat settings, r.1 = wordsOf c.name →
  ∀ bytes, stored c r.2 = some bytes → bytes.length ≤ T.room c

/-- A value on the way of a row is stored at its variable. -/
theorem storeOf_own (c : CompareMap ω) (hc : c ∈ T.rows) (data : List UInt8) (i : ℕ) :
    (storeOf T.rows (pairOf (joined dot (wordsOf c.name), data))).write (c.object, c.offset + i) =
      (stored c data).bind fun bytes => bytes[i]? := by
  have hfind := T.found c hc
  rw [(T.named c hc).2] at hfind
  simp only [storeOf, pairOf, hfind, Option.bind_some, if_true, blockAt, Nat.le_add_right,
    Nat.add_sub_cancel_left]

/-- A value on another way, or one that is not stored, leaves the variable alone. -/
theorem storeOf_silent (hplain : PlainSettings settings) (hfits : T.Fits settings)
    (c : CompareMap ω) (hc : c ∈ T.rows) (r : List (List UInt8) × List UInt8)
    (hr : r ∈ flat settings) (i : ℕ) (hi : i < T.room c)
    (h : r.1 = wordsOf c.name → stored c r.2 = none) :
    (storeOf T.rows (pairOf (joined dot r.1, r.2))).write (c.object, c.offset + i) = none := by
  have hwords := keyWords_flatSettings [] settings (fun w hw => by cases hw) hplain r hr
  by_cases hway : r.1 = wordsOf c.name
  · rw [hway, T.storeOf_own c hc, h hway, Option.bind_none]
  · cases hfind : T.rows.find? (fun d => d.name == keyString (joined dot r.1)) with
    | none => simp only [storeOf, pairOf, hfind, Option.bind_none]
    | some d =>
      have hd := List.mem_of_find?_eq_some hfind
      have hname : d.name = keyString (joined dot r.1) := by simpa using List.find?_some hfind
      have hother : d.name ≠ c.name := by
        intro heq
        exact hway ((T.name_eq_iff c hc r.1 hwords).mp (heq.symm.trans hname))
      simp only [storeOf, pairOf, hfind, Option.bind_some]
      split
      · next hobject =>
        cases hstored : stored d r.2 with
        | none => rfl
        | some bytes =>
          have hlen := hfits d hd r hr ((T.name_eq_iff d hd r.1 hwords).mp hname) bytes hstored
          have hapart := T.apart d hd c hc hother hobject.symm
          rw [Option.bind_some]
          by_contra hne
          have hinside := blockAt_ne_none d.offset bytes (c.offset + i) hne
          omega
      · rfl

variable (objs : Objects ω)

theorem lcfgAccept_flat (hok : (lcfgAccept T.rows (pairsOf settings) objs).1 = .ok) :
    Function.uncurry (lcfgAccept T.rows (pairsOf settings) objs).2 = KeyedStores.run
      ((flat settings).map fun r => storeOf T.rows (pairOf (joined dot r.1, r.2)))
      (Function.uncurry objs) := by
  rw [lcfgAccept_objects T.rows (pairsOf settings) objs hok]
  congr 1
  simp [pairsOf, keyed]

/-- After a traversal without an error a variable holds what was stored in it last. -/
theorem holds_stored (hplain : PlainSettings settings) (hfits : T.Fits settings)
    (hok : (lcfgAccept T.rows (pairsOf settings) objs).1 = .ok) (c : CompareMap ω)
    (hc : c ∈ T.rows) (bytes : List UInt8)
    (hlast : lastOn settings (wordsOf c.name) (stored c) = some bytes) :
    readBytes ((lcfgAccept T.rows (pairsOf settings) objs).2 c.object) c.offset bytes.length =
      bytes := by
  have hrun := T.lcfgAccept_flat settings objs hok
  obtain ⟨before, r, after, hsplit, hr, hafter⟩ := (findLast_eq_some_iff _ _ bytes).mp hlast
  have hmem : ∀ q ∈ r :: after, q ∈ flat settings := by
    intro q hq
    rw [hsplit]
    exact List.mem_append_right before hq
  by_cases hway : r.1 = wordsOf c.name
  · rw [if_pos hway] at hr
    have hlen := hfits c hc r (hmem r (List.mem_cons_self ..)) hway bytes hr
    apply List.ext_getElem
    · rw [readBytes_length]
    · intro i hi hi'
      rw [readBytes_length] at hi
      have hwrite : (storeOf T.rows (pairOf (joined dot r.1, r.2))).write
          (c.object, c.offset + i) = some bytes[i] := by
        rw [hway, T.storeOf_own c hc, hr, Option.bind_some, List.getElem?_eq_getElem hi']
      rw [hsplit, List.map_append, List.map_cons] at hrun
      rw [getElem_readBytes]
      refine (congrFun hrun (c.object, c.offset + i)).trans ?_
      apply run_last _ _ _ _ _ _ hwrite
      intro v hv
      obtain ⟨q, hq, rfl⟩ := List.mem_map.mp hv
      apply T.storeOf_silent settings hplain hfits c hc q (hmem q (List.mem_cons_of_mem _ hq)) i
        (by omega)
      intro hwayq
      simpa [hwayq] using hafter q hq
  · rw [if_neg hway] at hr
    cases hr

/-- And what it held before if nothing was. -/
theorem holds_initial (hplain : PlainSettings settings) (hfits : T.Fits settings)
    (hok : (lcfgAccept T.rows (pairsOf settings) objs).1 = .ok) (c : CompareMap ω)
    (hc : c ∈ T.rows) (hlast : lastOn settings (wordsOf c.name) (stored c) = none) (len : ℕ)
    (hlen : len ≤ T.room c) :
    readBytes ((lcfgAccept T.rows (pairsOf settings) objs).2 c.object) c.offset len =
      readBytes (objs c.object) c.offset len := by
  have hrun := T.lcfgAccept_flat settings objs hok
  have hnone := (findLast_eq_none_iff _ _).mp hlast
  apply readBytes_congr
  intro i hi
  refine (congrFun hrun (c.object, c.offset + i)).trans ?_
  apply run_silent
  intro v hv
  obtain ⟨q, hq, rfl⟩ := List.mem_map.mp hv
  apply T.storeOf_silent settings hplain hfits c hc q hq i (by omega)
  intro hwayq
  simpa [hwayq] using hnone q hq

/-- A number that was accepted is no larger than its variable. -/
theorem numberOn_lt (c : CompareMap ω) (hc : c ∈ T.rows)
    (hok : (lcfgAccept T.rows (pairsOf settings) objs).1 = .ok) (h : Numeric c.type) (v : UInt32)
    (hv : numberOn settings (wordsOf c.name) = some v) : v.toNat < 256 ^ typeWidth c.type := by
  obtain ⟨before, r, after, hsplit, hr, -⟩ := (findLast_eq_some_iff _ _ v).mp hv
  by_cases hway : r.1 = wordsOf c.name
  · rw [if_pos hway, Option.map_eq_some_iff] at hr
    obtain ⟨z, hz, rfl⟩ := hr
    have hmem : pairOf (joined dot r.1, r.2) ∈ pairsOf settings := by
      refine List.mem_map.mpr ⟨_, List.mem_map.mpr ⟨r, ?_, rfl⟩, rfl⟩
      rw [hsplit]
      simp
    have haccepted := (lcfgAccept_ok_iff T.rows (pairsOf settings) objs).mp hok _ hmem
    rw [rejected_iff T.rows objs, pairOf, hway, ← (T.named c hc).2,
      compareEventhandler_entry _ _ _ _ c (T.found c hc), handleEntry_numeric _ _ _ h, hz]
      at haccepted
    have hle : ¬ maxVal c.type < scanned z := by simpa [storeNumber_status] using haccepted
    have hbound := typeWidth_bound c.type h
    rw [UInt32.lt_iff_toNat_lt] at hle
    omega
  · rw [if_neg hway] at hr
    cases hr

/-- A variable with a number holds the last number on its way. -/
theorem value_document (hplain : PlainSettings settings) (hfits : T.Fits settings)
    (hok : (lcfgAccept T.rows (pairsOf settings) objs).1 = .ok)
    (c : CompareMap ω) (hc : c ∈ T.rows) (h : Numeric c.type)
    (hroom : typeWidth c.type ≤ T.room c) :
    value c (lcfgAccept T.rows (pairsOf settings) objs).2 =
      (numberOn settings (wordsOf c.name)).elim (value c objs) UInt32.toNat := by
  have hstored : lastOn settings (wordsOf c.name) (stored c) =
      (numberOn settings (wordsOf c.name)).map fun v => leBytes (typeWidth c.type) v.toNat := by
    rw [numberOn, ← lastOn_map]
    congr 1
    funext data
    rw [stored_numeric c h data, Option.map_map]
    rfl
  cases hnumber : numberOn settings (wordsOf c.name) with
  | none =>
    rw [hnumber, Option.map_none] at hstored
    exact congrArg leNat
      (T.holds_initial settings objs hplain hfits hok c hc hstored (typeWidth c.type) hroom)
  | some v =>
    rw [hnumber, Option.map_some] at hstored
    have hbytes := congrArg leNat (T.holds_stored settings objs hplain hfits hok c hc _ hstored)
    rw [leBytes_length, leNat_leBytes,
      Nat.mod_eq_of_lt (T.numberOn_lt settings objs c hc hok h v hnumber)] at hbytes
    exact hbytes

/-- A variable with a string holds the last string on its way. -/
theorem text_document (hplain : PlainSettings settings) (hfits : T.Fits settings)
    (hok : (lcfgAccept T.rows (pairsOf settings) objs).1 = .ok)
    (c : CompareMap ω) (hc : c ∈ T.rows) (h : c.type = typeS) (initial : List UInt8)
    (hinitial : cString (objs c.object) c.offset (T.room c) = some initial) :
    cString ((lcfgAccept T.rows (pairsOf settings) objs).2 c.object) c.offset (T.room c) =
      some ((textOn settings (wordsOf c.name)).getD initial) := by
  have hstored : ∀ data, stored c data = some (terminated (cText data)) := by
    intro data
    rw [stored, if_pos h]
  have hmap : lastOn settings (wordsOf c.name) (stored c) =
      (textOn settings (wordsOf c.name)).map terminated := by
    rw [textOn, ← lastOn_map]
    congr 1
    funext data
    exact hstored data
  cases htext : textOn settings (wordsOf c.name) with
  | none =>
    rw [htext, Option.map_none] at hmap
    have hsame := T.holds_initial settings objs hplain hfits hok c hc hmap (T.room c) le_rfl
    apply cString_shift (objs c.object) _ c.offset c.offset _ initial hinitial
    intro i hi
    exact (eq_of_readBytes_eq _ _ _ _ _ i hsame hi).symm
  | some text =>
    rw [htext, Option.map_some] at hmap
    have hread := T.holds_stored settings objs hplain hfits hok c hc _ hmap
    have hterm : (terminated text).length = text.length + 1 := by simp [terminated]
    obtain ⟨before, r, after, hsplit, hr, -⟩ := (findLast_eq_some_iff _ _ text).mp htext
    have hmem : r ∈ flat settings := by
      rw [hsplit]
      simp
    by_cases hway : r.1 = wordsOf c.name
    · rw [if_pos hway, Option.some.injEq] at hr
      have hlen := hfits c hc r hmem hway _ (hstored r.2)
      rw [hr, hterm] at hlen
      rw [hterm] at hread
      refine cString_of_readBytes _ _ _ text hlen ?_ hread
      rw [← hr]
      intro hzero
      simpa using List.mem_takeWhile_imp hzero
    · rw [if_neg hway] at hr
      cases hr

end SettingTable

end OmapBootUtils.DocumentSettings
