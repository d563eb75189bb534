import OmapBootUtils.DocumentSettings
import OmapBootUtils.PathTree

/-!
Access to the values of a parsed file. lcfg_value_get returns the first value with
a key, and lcfgx_tree_new enters the values into a tree, each on the words of its
key. The tree of a document has its maps and lists as they are written, each from
its end, and both ways find the same strings.
-/
namespace OmapBootUtils.LcfgTree

open ConfigHandler GrowingString JoinedWords PathTree LcfgScanner ScannedText LexicalGrammar
  LcfgParser ConfigGrammar ConfigKeys ConfigEval ConfigText DocumentSettings
open PathTree.Forest (enterAll putAll Free under hang)

/-! ### The traversal -/

/-- A lcfg_visitor_function on what user_data points to. -/
abbrev Visitor (ω : Type) := List UInt8 → List UInt8 → ω → Option (LcfgStatus × ω)

/-- lcfg_parser_accept, with the error of struct lcfg. -/
def parserAccept {ω : Type} (fn : Visitor ω) (error : Option LcfgError) :
    List Entry → ω → Option (LcfgStatus × Option LcfgError × ω)
  | [], w => some (.ok, error, w)
  | (key, value) :: values, w => do
      let (status, w) ← fn key value w
      if status ≠ .ok then return (.error, some .aborted, w) else parserAccept fn error values w

/-- lcfg_parser_get; nothing is the status of an error. -/
def parserGet (values : List Entry) (key : List UInt8) : Option (List UInt8) :=
  (values.find? fun e => cText e.1 = cText key).map Prod.snd

/-- The traversal of both image builders. -/
theorem parserAccept_compare {ω : Type} [DecidableEq ω] (table : List (CompareMap ω))
    (error : Option LcfgError) (values : List Entry) (objs : Objects ω) :
    parserAccept (fun key data objs => some (compareEventhandler table objs (keyString key) data))
        error values objs =
      some ((lcfgAccept table (values.map pairOf) objs).1,
        if (lcfgAccept table (values.map pairOf) objs).1 = .ok then error else some .aborted,
        (lcfgAccept table (values.map pairOf) objs).2) := by
  induction values generalizing objs with
  | nil => rfl
  | cons e values ih =>
    rw [List.map_cons, pairOf, lcfgAccept, parserAccept]
    cases compareEventhandler table objs (keyString e.1) e.2 with
    | mk status objs' =>
      cases status with
      | ok => simpa using ih objs'
      | error => simp

/-! ### The tree -/

/-- The elements of a struct lcfgx_tree_node, the first of them first. A node that is no
string is a map; lists get numbers for keys. -/
abbrev TreeNodes := Forest (List UInt8) (List UInt8)

/-- The tokens that calls of strtok return. -/
def strtok (delim : UInt8) (text : List UInt8) : List (List UInt8) :=
  (text.splitOn delim).filter (· ≠ [])

/-- lcfgx_tree_insert. Without a pathv[0], and where the string of a node is taken for its
elements, there is no result. -/
def lcfgxTreeInsert (pathv : List (List UInt8)) (data : List UInt8) (node : TreeNodes) :
    Option TreeNodes :=
  node.enter pathv data

/-- pathv has room for one more token than there are dots. -/
def lcfgxTreeVisitor : Visitor TreeNodes := fun key data root =>
  let pathComponents := 1 + (cText key).count dot
  let pathv := strtok dot (cText key)
  if pathComponents < pathv.length then none
  else (lcfgxTreeInsert pathv data root).map fun root => (.ok, root)

/-- lcfgx_tree_new on what lcfg_parse left; the status of lcfg_accept is not looked at. -/
def lcfgxTreeNew (parsed : Parsed) : Option TreeNodes :=
  (parserAccept lcfgxTreeVisitor parsed.error parsed.values .nil).map fun r => r.2.2

theorem length_splitOn (delim : UInt8) (text : List UInt8) :
    (text.splitOn delim).length = text.count delim + 1 := by
  induction text with
  | nil => rfl
  | cons c text ih =>
    rw [List.splitOn_cons_eq_if_modifyHead]
    by_cases hc : c = delim <;> simp [hc, ih]

theorem strtok_length (delim : UInt8) (text : List UInt8) :
    (strtok delim text).length ≤ 1 + text.count delim := by
  have hle := List.length_filter_le (fun w => decide (w ≠ [])) (text.splitOn delim)
  rw [length_splitOn] at hle
  rw [strtok]
  omega

/-- The tokens of a key are its words. -/
theorem strtok_joined (delim : UInt8) (words : List (List UInt8))
    (h : ∀ w ∈ words, IsWord delim w) : strtok delim (joined delim words) = words := by
  by_cases hnil : words = []
  · rw [hnil]
    rfl
  · rw [strtok, joined_eq_intercalate delim words fun w hw => (h w hw).1,
      List.splitOn_intercalate delim (fun w hw => (h w hw).2) hnil, List.filter_eq_self]
    intro w hw
    simpa using (h w hw).1

/-- The path and the string of each value. -/
def placed (values : List Entry) : List (List (List UInt8) × List UInt8) :=
  values.map fun e => (strtok dot (cText e.1), e.2)

theorem accept_tree (error : Option LcfgError) (values : List Entry) (root : TreeNodes) :
    parserAccept lcfgxTreeVisitor error values root =
      (root.enterAll (placed values)).map fun root => (.ok, error, root) := by
  induction values generalizing root with
  | nil => rfl
  | cons e values ih =>
    have hroom := strtok_length dot (cText e.1)
    rw [parserAccept, lcfgxTreeVisitor, if_neg (Nat.not_lt.mpr hroom), placed, List.map_cons,
      enterAll, List.foldlM_cons, lcfgxTreeInsert]
    cases root.enter (strtok dot (cText e.1)) e.2 with
    | none => rfl
    | some next => exact ih next

theorem treeNew_eq (parsed : Parsed) :
    lcfgxTreeNew parsed = (Forest.nil : TreeNodes).enterAll (placed parsed.values) := by
  rw [lcfgxTreeNew, accept_tree, Option.map_map]
  exact Option.map_id'

/-- The tree of any values. It is built if and only if every key has a word and none goes on
from the key of a string that is in the tree before it. Below a key there is then what the
first value with that key, or with one that goes on from it, has put there. -/
theorem tree_of_values (parsed : Parsed) :
    ((lcfgxTreeNew parsed).isSome ↔
      ∀ before e after, parsed.values = before ++ e :: after →
        Free (putAll (placed before)) (strtok dot (cText e.1))) ∧
    ∀ tree, lcfgxTreeNew parsed = some tree → ∀ path, path ≠ [] →
      tree.node path = putAll (placed parsed.values) path := by
  rw [treeNew_eq, Forest.enterAll_nil_isSome_iff]
  refine ⟨⟨?_, ?_⟩, fun tree htree => Forest.node_enterAll_nil _ tree htree⟩
  · intro h before e after hsplit
    exact h (placed before) (strtok dot (cText e.1), e.2) (placed after)
      (by rw [hsplit]; simp [placed])
  · intro h before r after hsplit
    obtain ⟨front, rest, hvalues, rfl, hrest⟩ := List.map_eq_append_iff.mp hsplit
    obtain ⟨e, last, rfl, rfl, -⟩ := List.map_eq_cons_iff.mp hrest
    exact h front e last hvalues

/-! ### Ways through a document -/

mutual

theorem flatValue_cons (k : List UInt8) (words : List (List UInt8)) (v : Value) :
    flatValue (k :: words) v = under k (flatValue words v) :=
  match v with
  | .string _ => rfl
  | .list items => flatItems_cons k words 0 items
  | .map settings => flatSettings_cons k words settings

theorem flatItems_cons (k : List UInt8) (words : List (List UInt8)) (n : ℕ) (items : Items) :
    flatItems (k :: words) n items = under k (flatItems words n items) :=
  match items with
  | .nil => rfl
  | .cons v items => by
    rw [flatItems, flatItems, List.cons_append, flatValue_cons k _ v,
      flatItems_cons k words (n + 1) items, under, under, under, List.map_append]

theorem flatSettings_cons (k : List UInt8) (words : List (List UInt8)) (settings : Settings) :
    flatSettings (k :: words) settings = under k (flatSettings words settings) :=
  match settings with
  | .nil => rfl
  | .cons name v settings => by
    rw [flatSettings, flatSettings, List.cons_append, flatValue_cons k _ v,
      flatSettings_cons k words settings, under, under, under, List.map_append]

end

theorem flatItems_first (n : ℕ) (v : Value) (items : Items) :
    flatItems [] n (.cons v items) =
      under (decimal n) (flatValue [] v) ++ flatItems [] (n + 1) items := by
  rw [flatItems, List.nil_append, flatValue_cons]

theorem flatSettings_first (name : List UInt8) (v : Value) (settings : Settings) :
    flatSettings [] (.cons name v settings) =
      under name (flatValue [] v) ++ flatSettings [] settings := by
  rw [flatSettings, List.nil_append, flatValue_cons]

def names : Settings → List (List UInt8)
  | .nil => []
  | .cons name _ settings => name :: names settings

mutual

/-- No map has a name twice. -/
def DistinctValue : Value → Prop
  | .string _ => True
  | .list items => DistinctItems items
  | .map settings => DistinctSettings settings

def DistinctItems : Items → Prop
  | .nil => True
  | .cons v items => DistinctValue v ∧ DistinctItems items

def DistinctSettings : Settings → Prop
  | .nil => True
  | .cons name v settings => name ∉ names settings ∧ DistinctValue v ∧ DistinctSettings settings

end

theorem flatItems_start (n : ℕ) (items : Items) : ∀ r ∈ flatItems [] n items,
    ∃ m rest, n ≤ m ∧ m < n + items.length ∧ r.1 = decimal m :: rest :=
  match items with
  | .nil => by
    intro r hr
    cases hr
  | .cons v items => by
    intro r hr
    rw [flatItems_first] at hr
    rw [Items.length]
    rcases List.mem_append.mp hr with hr | hr
    · obtain ⟨q, -, rfl⟩ := List.mem_map.mp hr
      exact ⟨n, q.1, le_rfl, by omega, rfl⟩
    · obtain ⟨m, rest, hlow, hhigh, heq⟩ := flatItems_start (n + 1) items r hr
      exact ⟨m, rest, by omega, by omega, heq⟩

theorem flatSettings_start (settings : Settings) : ∀ r ∈ flatSettings [] settings,
    ∃ name ∈ names settings, ∃ rest, r.1 = name :: rest :=
  match settings with
  | .nil => by
    intro r hr
    cases hr
  | .cons name v settings => by
    intro r hr
    rw [flatSettings_first] at hr
    rcases List.mem_append.mp hr with hr | hr
    · obtain ⟨q, -, rfl⟩ := List.mem_map.mp hr
      exact ⟨name, List.mem_cons_self .., q.1, rfl⟩
    · obtain ⟨other, hmem, rest, heq⟩ := flatSettings_start settings r hr
      exact ⟨other, List.mem_cons_of_mem _ hmem, rest, heq⟩

theorem decimal_ne (n m : ℕ) (hn : n < 10) (hm : m < 10) (h : n ≠ m) : decimal n ≠ decimal m := by
  have hall : ∀ n < 10, ∀ m < 10, decimal n = decimal m → n = m := by decide
  exact fun heq => h (hall n hn m hm heq)

/-- Paths that start with different keys are apart. -/
theorem apart_starts (k j : List UInt8) (p q : List (List UInt8)) (h : k ≠ j) :
    ¬ k :: p <+: j :: q ∧ ¬ j :: q <+: k :: p := by
  constructor
  · intro hprefix
    exact h (List.cons_prefix_cons.mp hprefix).1
  · intro hprefix
    exact h (List.cons_prefix_cons.mp hprefix).1.symm

mutual

theorem apart_flatValue (v : Value) (hplain : PlainValue v) (h : DistinctValue v) :
    Forest.Apart (flatValue [] v) :=
  match v with
  | .string _ => List.pairwise_singleton _ _
  | .list items => apart_flatItems 0 items (by have := hplain.1; omega) hplain.2 h
  | .map settings => apart_flatSettings settings hplain h

theorem apart_flatItems (n : ℕ) (items : Items) (hlen : n + items.length ≤ 10)
    (hplain : PlainItems items) (h : DistinctItems items) : Forest.Apart (flatItems [] n items) :=
  match items with
  | .nil => List.Pairwise.nil
  | .cons v items => by
    rw [Items.length] at hlen
    rw [flatItems_first]
    refine List.pairwise_append.mpr ⟨Forest.apart_under _ _ (apart_flatValue v hplain.1 h.1),
      apart_flatItems (n + 1) items (by omega) hplain.2 h.2, ?_⟩
    intro r hr r' hr'
    obtain ⟨q, -, rfl⟩ := List.mem_map.mp hr
    obtain ⟨m, rest, hlow, hhigh, heq⟩ := flatItems_start (n + 1) items r' hr'
    rw [heq]
    exact apart_starts _ _ _ _ (decimal_ne n m (by omega) (by omega) (by omega))

theorem apart_flatSettings (settings : Settings) (hplain : PlainSettings settings)
    (h : DistinctSettings settings) : Forest.Apart (flatSettings [] settings) :=
  match settings with
  | .nil => List.Pairwise.nil
  | .cons name v settings => by
    rw [flatSettings_first]
    refine List.pairwise_append.mpr ⟨Forest.apart_under _ _ (apart_flatValue v hplain.2.1 h.2.1),
      apart_flatSettings settings hplain.2.2 h.2.2, ?_⟩
    intro r hr r' hr'
    obtain ⟨q, -, rfl⟩ := List.mem_map.mp hr
    obtain ⟨other, hmem, rest, heq⟩ := flatSettings_start settings r' hr'
    rw [heq]
    exact apart_starts _ _ _ _ fun hname => h.1 (hname ▸ hmem)

end

/-! ### The tree of a document -/

mutual

/-- A value below the key, before the nodes that are there; a map or list without a string
has no node. -/
def hangValue (key : List UInt8) : Value → TreeNodes → TreeNodes
  | .string bytes, f => .leaf key bytes f
  | .list items, f => hang key (hangItems 0 items .nil) f
  | .map settings, f => hang key (hangSettings settings .nil) f

def hangItems : ℕ → Items → TreeNodes → TreeNodes
  | _, .nil, f => f
  | n, .cons v items, f => hangItems (n + 1) items (hangValue (decimal n) v f)

def hangSettings : Settings → TreeNodes → TreeNodes
  | .nil, f => f
  | .cons name v settings, f => hangSettings settings (hangValue name v f)

end

theorem find_hangValue_ne (key j : List UInt8) (v : Value) (f : TreeNodes) (h : key ≠ j) :
    (hangValue key v f).find j = f.find j := by
  cases v with
  | string bytes => rw [hangValue, Forest.find, if_neg h]
  | list items => rw [hangValue, Forest.find_hang_ne key j _ f h]
  | map settings => rw [hangValue, Forest.find_hang_ne key j _ f h]

mutual

theorem enterAll_value (key : List UInt8) (v : Value) (f : TreeNodes) (hplain : PlainValue v)
    (h : DistinctValue v) (hfind : f.find key = none) :
    f.enterAll (under key (flatValue [] v)) = some (hangValue key v f) :=
  match v with
  | .string bytes => by
    simp [flatValue, under, enterAll, Forest.enter, hfind, hangValue]
  | .list items => by
    have hitems := enterAll_items 0 items .nil (by have := hplain.1; omega) hplain.2 h
      fun m _ _ => rfl
    apply Forest.enterAll_under key _ _ f _ hfind hitems
    intro r hr
    obtain ⟨m, rest, -, -, heq⟩ := flatItems_start 0 items r hr
    simp [heq]
  | .map settings => by
    have hsettings := enterAll_settings settings .nil hplain h fun name _ => rfl
    apply Forest.enterAll_under key _ _ f _ hfind hsettings
    intro r hr
    obtain ⟨name, -, rest, heq⟩ := flatSettings_start settings r hr
    simp [heq]

theorem enterAll_items (n : ℕ) (items : Items) (f : TreeNodes) (hlen : n + items.length ≤ 10)
    (hplain : PlainItems items) (h : DistinctItems items)
    (hfind : ∀ m, n ≤ m → m < n + items.length → f.find (decimal m) = none) :
    f.enterAll (flatItems [] n items) = some (hangItems n items f) :=
  match items with
  | .nil => rfl
  | .cons v items => by
    rw [Items.length] at hlen hfind
    rw [flatItems_first, Forest.enterAll_append,
      enterAll_value (decimal n) v f hplain.1 h.1 (hfind n le_rfl (by omega)), Option.bind_some,
      hangItems]
    apply enterAll_items (n + 1) items _ (by omega) hplain.2 h.2
    intro m hlow hhigh
    rw [find_hangValue_ne _ _ v f (decimal_ne n m (by omega) (by omega) (by omega))]
    exact hfind m (by omega) (by omega)

theorem enterAll_settings (settings : Settings) (f : TreeNodes) (hplain : PlainSettings settings)
    (h : DistinctSettings settings) (hfind : ∀ name ∈ names settings, f.find name = none) :
    f.enterAll (flatSettings [] settings) = some (hangSettings settings f) :=
  match settings with
  | .nil => rfl
  | .cons name v settings => by
    rw [flatSettings_first, Forest.enterAll_append,
      enterAll_value name v f hplain.2.1 h.2.1 (hfind name (List.mem_cons_self ..)),
      Option.bind_some, hangSettings]
    apply enterAll_settings settings _ hplain.2.2 h.2.2
    intro other hother
    rw [find_hangValue_ne name other v f fun hname => h.1 (hname ▸ hother)]
    exact hfind other (List.mem_cons_of_mem _ hother)

end

theorem placed_keyed (entries : List (List (List UInt8) × List UInt8))
    (h : ∀ r ∈ entries, KeyWords r.1) : placed (keyed entries) = entries := by
  rw [placed, keyed, List.map_map]
  apply (List.map_congr_left _).trans (List.map_id entries)
  intro r hr
  have hwords := h r hr
  simp only [Function.comp_apply, id_eq]
  rw [cText_of_notMem _ (zero_notMem_joined _ hwords),
    strtok_joined dot r.1 fun w hw => (hwords w hw).1]

/-- lcfg_value_get finds the first value with the words of the key. -/
theorem parserGet_keyed (entries : List (List (List UInt8) × List UInt8))
    (h : ∀ r ∈ entries, KeyWords r.1) (words : List (List UInt8)) (hwords : KeyWords words) :
    parserGet (keyed entries) (joined dot words) = entries.lookup words := by
  induction entries with
  | nil => rfl
  | cons r entries ih =>
    have hr : KeyWords r.1 := h r (List.mem_cons_self ..)
    have hsame : cText (joined dot r.1) = cText (joined dot words) ↔ r.1 = words := by
      rw [cText_of_notMem _ (zero_notMem_joined _ hr),
        cText_of_notMem _ (zero_notMem_joined _ hwords)]
      exact ⟨joined_injective dot _ _ (fun w hw => (hr w hw).1) fun w hw => (hwords w hw).1,
        congrArg _⟩
    have hcons : keyed (r :: entries) = (joined dot r.1, r.2) :: keyed entries := rfl
    rw [hcons, parserGet, List.find?_cons, List.lookup_cons]
    by_cases hpath : r.1 = words
    · simp [hpath]
    · have hne : (words == r.1) = false := beq_eq_false_iff_ne.mpr fun heq => hpath heq.symm
      have htail := ih fun r hr => h r (List.mem_cons_of_mem _ hr)
      rw [parserGet] at htail
      simp [hsame, hpath, hne, htail]

/-- The values of a document, whatever its text looks like and whatever blocks it is read in:
under the names and numbers on a way lcfg_value_get finds the first value on it. -/
theorem value_of_document (document : List UInt8) (settings : Settings) (reads : List ReadResult)
    (hdocument : Describes document settings) (hplain : PlainSettings settings)
    (hreads : delivered reads = some document) :
    ∃ parsed, parserRun (.inr reads) = some parsed ∧ parsed.status = .ok ∧
      ∀ words, KeyWords words →
        parserGet parsed.values (joined dot words) = (flat settings).lookup words := by
  have hkeys := keyWords_flatSettings [] settings (fun w hw => by cases hw) hplain
  obtain ⟨e, hrun⟩ := parserRun_document document settings reads hdocument hplain hreads
  exact ⟨_, hrun, rfl, fun words hwords => parserGet_keyed _ hkeys words hwords⟩

/-- A name that is given twice. -/
def twice : Settings := .cons [0x61] (.string [0x78]) (.cons [0x61] (.string [0x79]) .nil)

theorem value_of_document_twice :
    ∃ parsed, parserRun (.inr [.data (writeSettings twice) (by decide)]) = some parsed ∧
      parsed.status = .ok ∧
      ∀ words, KeyWords words →
        parserGet parsed.values (joined dot words) = (flat twice).lookup words :=
  value_of_document (writeSettings twice) twice _
    (describes_write twice ⟨by decide, trivial, by decide, trivial, trivial⟩)
    ⟨by decide, trivial, by decide, trivial, trivial⟩ (by decide +kernel)

/-- The tree of a document, whatever its text looks like and whatever blocks it is read in.
lcfg_value_get and a walk through the tree find the same strings. -/
theorem tree_of_document (document : List UInt8) (settings : Settings) (reads : List ReadResult)
    (hdocument : Describes document settings) (hplain : PlainSettings settings)
    (hdistinct : DistinctSettings settings) (hreads : delivered reads = some document) :
    ∃ parsed, parserRun (.inr reads) = some parsed ∧ parsed.status = .ok ∧
      lcfgxTreeNew parsed = some (hangSettings settings .nil) ∧
      ∀ words bytes, KeyWords words →
        (parserGet parsed.values (joined dot words) = some bytes ↔
          (hangSettings settings .nil).node words = some (some bytes)) := by
  have hkeys := keyWords_flatSettings [] settings (fun w hw => by cases hw) hplain
  have hapart := apart_flatSettings settings hplain hdistinct
  have htree := enterAll_settings settings .nil hplain hdistinct fun name _ => rfl
  obtain ⟨e, hrun⟩ := parserRun_document document settings reads hdocument hplain hreads
  refine ⟨_, hrun, rfl, ?_, ?_⟩
  · rw [treeNew_eq, placed_keyed _ hkeys]
    exact htree
  · intro words bytes hwords
    rw [parserGet_keyed _ hkeys words hwords, Forest.lookup_of_apart _ hapart]
    by_cases hnil : words = []
    · have hnone : (words, bytes) ∉ flat settings := by
        intro hmem
        obtain ⟨name, -, rest, heq⟩ := flatSettings_start settings _ hmem
        rw [hnil] at heq
        cases heq
      rw [hnil] at hnone ⊢
      simp [hnone]
    · rw [Forest.node_enterAll_nil _ _ htree words hnil, Forest.putAll_of_apart _ hapart]

/-- A list in a map, and a string beside it. -/
def listInMap : Settings :=
  .cons [0x61] (.map (.cons [0x62] (.list (.cons (.string []) (.cons (.string []) .nil))) .nil))
    (.cons [0x63] (.string []) .nil)

theorem tree_of_document_listInMap :
    ∃ parsed, parserRun (.inr [.data (writeSettings listInMap) (by decide +kernel)]) = some parsed ∧
      parsed.status = .ok ∧
      lcfgxTreeNew parsed = some (.leaf [0x63] [] (.inner [0x61] (.inner [0x62]
        (.leaf [0x31] [] (.leaf [0x30] [] .nil)) .nil) .nil)) ∧
      ∀ words bytes, KeyWords words →
        (parserGet parsed.values (joined dot words) = some bytes ↔
          (hangSettings listInMap .nil).node words = some (some bytes)) := by
  have hplain : PlainSettings listInMap :=
    ⟨by decide, ⟨by decide, ⟨by decide, trivial, trivial, trivial⟩, trivial⟩, by decide, trivial,
      trivial⟩
  have hnamed : NamedSettings listInMap :=
    ⟨by decide, ⟨by decide, ⟨trivial, trivial, trivial⟩, trivial⟩, by decide, trivial, trivial⟩
  have hdistinct : DistinctSettings listInMap :=
    ⟨by decide, ⟨by decide, ⟨trivial, trivial, trivial⟩, trivial⟩, by decide, trivial, trivial⟩
  exact tree_of_document (writeSettings listInMap) listInMap _ (describes_write listInMap hnamed)
    hplain hdistinct (by decide +kernel)

end OmapBootUtils.LcfgTree
