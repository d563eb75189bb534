import Mathlib.Data.List.Induction

/-!
Trees of values on paths, kept as nodes with a first child and a next sibling. A
value that is entered on a path that is taken changes nothing; a path that goes on
from a value cannot be entered. What a tree has on a path after any number of
entries is decided by the first entry on or beyond that path.
-/
namespace OmapBootUtils.PathTree

/-- Siblings, each with a key. -/
inductive Forest (κ β : Type)
  | nil
  | leaf (key : κ) (value : β) (next : Forest κ β)
  | inner (key : κ) (elements next : Forest κ β)
  deriving DecidableEq, Repr

variable {κ β : Type} [DecidableEq κ]

namespace Forest

/-- The first sibling with the key: its value, or what is below it. -/
def find (k : κ) : Forest κ β → Option (β ⊕ Forest κ β)
  | .nil => none
  | .leaf key value next => if key = k then some (.inl value) else next.find k
  | .inner key elements next => if key = k then some (.inr elements) else next.find k

/-- Other nodes below the first sibling with the key. -/
def graft : Forest κ β → κ → Forest κ β → Forest κ β
  | .nil, _, _ => .nil
  | .leaf key value next, k, below =>
      if key = k then .leaf key value next else .leaf key value (next.graft k below)
  | .inner key elements next, k, below =>
      if key = k then .inner key below next else .inner key elements (next.graft k below)

/-- A new node is the first among its siblings. -/
def enter : List κ → β → Forest κ β → Option (Forest κ β)
  | [], _, _ => none
  | k :: path, v, f =>
      if path = [] then some (if (f.find k).isSome then f else .leaf k v f)
      else match f.find k with
        | none => (enter path v .nil).map fun elements => .inner k elements f
        | some (.inl _) => none
        | some (.inr elements) => (enter path v elements).map fun below => f.graft k below

def enterAll (entries : List (List κ × β)) (f : Forest κ β) : Option (Forest κ β) :=
  entries.foldlM (fun f r => f.enter r.1 r.2) f

/-- What is on a path: nothing, a node with others below it, or a value. -/
def node : Forest κ β → List κ → Option (Option β)
  | _, [] => some none
  | f, k :: path => match f.find k with
      | none => none
      | some (.inl v) => if path = [] then some (some v) else none
      | some (.inr elements) => elements.node path

@[simp] theorem find_nil (k : κ) : (nil : Forest κ β).find k = none := rfl

@[simp] theorem node_nil_path (f : Forest κ β) : f.node [] = some none := rfl

theorem node_nil (path : List κ) (h : path ≠ []) : (nil : Forest κ β).node path = none := by
  cases path with
  | nil => exact absurd rfl h
  | cons k path => rfl

theorem find_graft (k : κ) (elements below : Forest κ β) (f : Forest κ β)
    (h : f.find k = some (.inr elements)) (j : κ) :
    (f.graft k below).find j = if k = j then some (.inr below) else f.find j := by
  induction f with
  | nil => cases h
  | leaf key value next ih =>
    by_cases hkey : key = k
    · rw [find, if_pos hkey] at h
      cases h
    · rw [find, if_neg hkey] at h
      rw [graft, if_neg hkey, find, find, ih h]
      by_cases hj : key = j
      · have hne : k ≠ j := fun heq => hkey (hj.trans heq.symm)
        rw [if_pos hj, if_pos hj, if_neg hne]
      · rw [if_neg hj, if_neg hj]
  | inner key elements' next _ ih =>
    by_cases hkey : key = k
    · rw [graft, if_pos hkey, find, find, hkey]
      by_cases hj : k = j
      · rw [if_pos hj, if_pos hj]
      · rw [if_neg hj, if_neg hj, if_neg hj]
    · rw [find, if_neg hkey] at h
      rw [graft, if_neg hkey, find, find, ih h]
      by_cases hj : key = j
      · have hne : k ≠ j := fun heq => hkey (hj.trans heq.symm)
        rw [if_pos hj, if_pos hj, if_neg hne]
      · rw [if_neg hj, if_neg hj]

/-! ### One entry -/

/-- How the siblings are left by an entry that starts with the key. -/
inductive Entered (k : κ) (path : List κ) (v : β) (f : Forest κ β) : Forest κ β → Prop
  | last (hend : path = []) : Entered k path v f (if (f.find k).isSome then f else .leaf k v f)
  | new (elements : Forest κ β) (hend : path ≠ []) (hfind : f.find k = none)
      (henter : enter path v .nil = some elements) : Entered k path v f (.inner k elements f)
  | below (elements below : Forest κ β) (hend : path ≠ [])
      (hfind : f.find k = some (.inr elements)) (henter : enter path v elements = some below) :
      Entered k path v f (f.graft k below)

theorem entered (k : κ) (path : List κ) (v : β) (f f' : Forest κ β)
    (h : enter (k :: path) v f = some f') : Entered k path v f f' := by
  rw [enter] at h
  by_cases hend : path = []
  · rw [if_pos hend, Option.some.injEq] at h
    rw [← h]
    exact .last hend
  · rw [if_neg hend] at h
    cases hfind : f.find k with
    | none =>
      rw [hfind] at h
      obtain ⟨elements, henter, rfl⟩ := Option.map_eq_some_iff.mp h
      exact .new elements hend hfind henter
    | some found =>
      rw [hfind] at h
      cases found with
      | inl w => cases h
      | inr elements =>
        obtain ⟨below, henter, rfl⟩ := Option.map_eq_some_iff.mp h
        exact .below elements below hend hfind henter

theorem Entered.find_ne {k j : κ} {path : List κ} {v : β} {f f' : Forest κ β}
    (h : Entered k path v f f') (hj : k ≠ j) : f'.find j = f.find j := by
  cases h with
  | last hend =>
    split
    · rfl
    · rw [find, if_neg hj]
  | new elements hend hfind henter => rw [find, if_neg hj]
  | below elements below hend hfind henter =>
    rw [find_graft k elements below f hfind, if_neg hj]

theorem node_inner (f elements : Forest κ β) (k : κ) (q : List κ)
    (h : f.find k = some (.inr elements)) : f.node (k :: q) = elements.node q := by
  rw [node, h]

theorem node_none (f : Forest κ β) (k : κ) (q : List κ) (h : f.find k = none) :
    f.node (k :: q) = none := by
  rw [node, h]

/-- What an entry puts on a path: its value at the end, and nodes on the way to it. -/
def put (path : List κ) (v : β) (q : List κ) : Option (Option β) :=
  if q <+: path then some (if q = path then some v else none) else none

theorem put_cons (k : κ) (path : List κ) (v : β) (q : List κ) :
    put (k :: path) v (k :: q) = put path v q := by
  simp [put]

theorem put_ne (k j : κ) (path : List κ) (v : β) (q : List κ) (h : k ≠ j) :
    put (k :: path) v (j :: q) = none := by
  have hne : j ≠ k := fun heq => h heq.symm
  simp [put, hne]

theorem put_nil (path : List κ) (v : β) (h : path ≠ []) : put path v [] = some none := by
  simp [put, h.symm]

theorem put_end (v : β) (q : List κ) :
    put [] v q = if q = [] then some (some v) else none := by
  by_cases hq : q = [] <;> simp [put, hq]

/-- A path that is taken stays as it is, and the entry fills the others. -/
theorem node_enter (path : List κ) (v : β) (f f' : Forest κ β) (h : enter path v f = some f')
    (q : List κ) : f'.node q = (f.node q).or (put path v q) := by
  induction path generalizing f f' q with
  | nil => cases h
  | cons k path ih =>
    have hentered := entered k path v f f' h
    cases q with
    | nil => rfl
    | cons j q =>
      by_cases hj : k = j
      · subst hj
        rw [put_cons]
        cases hentered with
        | last hend =>
          rw [hend, put_end]
          cases hfind : f.find k with
          | none => simp [node, find, hfind]
          | some found =>
            rw [Option.isSome_some, if_pos rfl]
            cases found with
            | inl w => by_cases hq : q = [] <;> simp [node, hfind, hq]
            | inr elements => by_cases hq : q = [] <;> simp [node, hfind, hq]
        | new elements hend hfind henter =>
          have hbelow := ih .nil elements henter q
          rw [node_none f k q hfind, Option.none_or,
            node_inner _ elements k q (by rw [find, if_pos rfl]), hbelow]
          cases q with
          | nil => rw [put_nil path v hend, node_nil_path, Option.some_or]
          | cons i q => rw [node_nil _ (by simp), Option.none_or]
        | below elements below hend hfind henter =>
          have hkey := find_graft k elements below f hfind k
          rw [if_pos rfl] at hkey
          rw [node_inner f elements k q hfind, node_inner _ below k q hkey,
            ih elements below henter q]
      · rw [put_ne k j path v q hj, Option.or_none, node, node, hentered.find_ne hj]

/-- The path does not go on from a value. -/
def Free (view : List κ → Option (Option β)) (path : List κ) : Prop :=
  path ≠ [] ∧ ∀ front, front ≠ [] → front <+: path → front ≠ path → ∀ w, view front ≠ some (some w)

omit [DecidableEq κ] in
theorem free_single (view : List κ → Option (Option β)) (k : κ) : Free view [k] := by
  refine ⟨by simp, ?_⟩
  intro front hnil hfront hne w
  cases front with
  | nil => exact absurd rfl hnil
  | cons j front =>
    obtain ⟨rfl, hrest⟩ := List.cons_prefix_cons.mp hfront
    rw [List.prefix_nil.mp hrest] at hne
    exact absurd rfl hne

theorem free_cons_inner (f elements : Forest κ β) (k : κ) (path : List κ) (hend : path ≠ [])
    (h : f.find k = some (.inr elements)) : Free f.node (k :: path) ↔ Free elements.node path := by
  constructor
  · intro hfree
    refine ⟨hend, ?_⟩
    intro front _ hfront hne w
    rw [← node_inner f elements k front h]
    exact hfree.2 (k :: front) (by simp) (by simpa using hfront) (by simpa using hne) w
  · intro hfree
    refine ⟨by simp, ?_⟩
    intro front hnil hfront hne w
    cases front with
    | nil => exact absurd rfl hnil
    | cons j front =>
      obtain ⟨rfl, hrest⟩ := List.cons_prefix_cons.mp hfront
      rw [node_inner f elements j front h]
      by_cases hend : front = []
      · simp [hend]
      · exact hfree.2 front hend hrest (by simpa using hne) w

theorem free_cons_none (f : Forest κ β) (k : κ) (path : List κ) (h : f.find k = none) :
    Free f.node (k :: path) := by
  refine ⟨by simp, ?_⟩
  intro front hnil hfront hne w
  cases front with
  | nil => exact absurd rfl hnil
  | cons j front =>
    obtain ⟨rfl, -⟩ := List.cons_prefix_cons.mp hfront
    rw [node_none f j front h]
    simp

theorem not_free_value (f : Forest κ β) (k : κ) (path : List κ) (w : β) (hend : path ≠ [])
    (h : f.find k = some (.inl w)) : ¬ Free f.node (k :: path) := by
  intro hfree
  have hfront : [k] <+: k :: path := by simp
  have hvalue : f.node [k] = some (some w) := by simp [node, h]
  exact hfree.2 [k] (by simp) hfront (by simpa [eq_comm] using hend) w hvalue

theorem enter_isSome_iff (path : List κ) (v : β) (f : Forest κ β) :
    (enter path v f).isSome ↔ Free f.node path := by
  induction path generalizing f with
  | nil => simp [enter, Free]
  | cons k path ih =>
    by_cases hend : path = []
    · subst hend
      simp [enter, free_single]
    · rw [enter, if_neg hend]
      cases hfind : f.find k with
      | none =>
        have hnil : Free (nil : Forest κ β).node path := by
          cases path with
          | nil => exact absurd rfl hend
          | cons j path => exact free_cons_none .nil j path rfl
        simp [ih .nil, hnil, free_cons_none f k path hfind]
      | some found =>
        cases found with
        | inl w => simp [not_free_value f k path w hend hfind]
        | inr elements => simp [ih elements, free_cons_inner f elements k path hend hfind]

/-! ### Any number of entries -/

/-- What entries put on a path: the first on or beyond it decides. -/
def putAll (entries : List (List κ × β)) (q : List κ) : Option (Option β) :=
  entries.findSome? fun r => put r.1 r.2 q

theorem node_enterAll (entries : List (List κ × β)) (f f' : Forest κ β)
    (h : f.enterAll entries = some f') (q : List κ) :
    f'.node q = (f.node q).or (putAll entries q) := by
  induction entries generalizing f with
  | nil =>
    obtain rfl : f = f' := Option.some.inj h
    simp [putAll]
  | cons r entries ih =>
    rw [enterAll, List.foldlM_cons] at h
    obtain ⟨next, hnext, hrest⟩ := Option.bind_eq_some_iff.mp h
    rw [ih next hrest, node_enter r.1 r.2 f next hnext q, putAll, putAll, List.findSome?_cons]
    cases put r.1 r.2 q <;> simp

theorem enterAll_concat (entries : List (List κ × β)) (r : List κ × β) (f : Forest κ β) :
    f.enterAll (entries ++ [r]) = (f.enterAll entries).bind (enter r.1 r.2) := by
  rw [enterAll, List.foldlM_append]
  simp [enterAll]

/-- All entries are made if and only if the path of none goes on from a value that is there
before it. -/
theorem enterAll_isSome_iff (entries : List (List κ × β)) (f : Forest κ β) :
    (f.enterAll entries).isSome ↔ ∀ before r after, entries = before ++ r :: after →
      Free (fun q => (f.node q).or (putAll before q)) r.1 := by
  induction entries using List.reverseRecOn with
  | nil => simp [enterAll]
  | append_singleton entries last ih =>
    rw [enterAll_concat]
    constructor
    · intro hsome before r after hsplit
      obtain ⟨f', hf'⟩ := Option.isSome_iff_exists.mp hsome
      obtain ⟨middle, hmiddle, hlast⟩ := Option.bind_eq_some_iff.mp hf'
      rcases List.eq_nil_or_concat after with rfl | ⟨after, x, rfl⟩
      · obtain ⟨rfl, rfl⟩ := List.append_singleton_inj.mp hsplit
        have hview : middle.node = fun q => (f.node q).or (putAll entries q) :=
          funext fun q => node_enterAll entries f middle hmiddle q
        rw [← hview, ← enter_isSome_iff last.1 last.2 middle, hlast]
        rfl
      · have hfront : entries = before ++ r :: after := by
          rw [List.concat_eq_append, ← List.cons_append, ← List.append_assoc] at hsplit
          exact (List.append_singleton_inj.mp hsplit).1
        exact ih.mp (by rw [hmiddle]; rfl) before r after hfront
    · intro hfree
      have hentries : (f.enterAll entries).isSome := by
        apply ih.mpr
        intro before r after hsplit
        exact hfree before r (after ++ [last]) (by rw [hsplit]; simp)
      obtain ⟨middle, hmiddle⟩ := Option.isSome_iff_exists.mp hentries
      have hview : middle.node = fun q => (f.node q).or (putAll entries q) :=
        funext fun q => node_enterAll entries f middle hmiddle q
      rw [hmiddle, Option.bind_some, enter_isSome_iff, hview]
      exact hfree entries last [] rfl

theorem node_enterAll_nil (entries : List (List κ × β)) (f : Forest κ β)
    (h : (nil : Forest κ β).enterAll entries = some f) (q : List κ) (hq : q ≠ []) :
    f.node q = putAll entries q := by
  rw [node_enterAll entries .nil f h, node_nil q hq, Option.none_or]

theorem enterAll_nil_isSome_iff (entries : List (List κ × β)) :
    ((nil : Forest κ β).enterAll entries).isSome ↔ ∀ before r after,
      entries = before ++ r :: after → Free (putAll before) r.1 := by
  have hview : ∀ (before : List (List κ × β)) (path : List κ),
      Free (fun q => ((nil : Forest κ β).node q).or (putAll before q)) path ↔
        Free (putAll before) path := by
    intro before path
    have hfront : ∀ front : List κ, front ≠ [] →
        ((nil : Forest κ β).node front).or (putAll before front) = putAll before front := by
      intro front hnil
      rw [node_nil front hnil, Option.none_or]
    refine and_congr_right fun _ => forall_congr' fun front => forall_congr' fun hnil => ?_
    simp only [hfront front hnil]
  rw [enterAll_isSome_iff]
  simp only [hview]

theorem enterAll_append (entries entries' : List (List κ × β)) (f : Forest κ β) :
    f.enterAll (entries ++ entries') = (f.enterAll entries).bind fun f => f.enterAll entries' := by
  rw [enterAll, List.foldlM_append]
  rfl

/-! ### Paths that are apart -/

/-- No path is another or goes on from it. -/
def Apart (entries : List (List κ × β)) : Prop :=
  entries.Pairwise fun r r' => ¬ r.1 <+: r'.1 ∧ ¬ r'.1 <+: r.1

theorem put_eq_value_iff (path : List κ) (v w : β) (q : List κ) :
    put path v q = some (some w) ↔ q = path ∧ v = w := by
  unfold put
  by_cases hq : q = path
  · simp [hq]
  · simp [hq]

/-- With paths that are apart all values are found. -/
theorem putAll_of_apart (entries : List (List κ × β)) (h : Apart entries) (q : List κ) (v : β) :
    putAll entries q = some (some v) ↔ (q, v) ∈ entries := by
  induction entries with
  | nil => simp [putAll]
  | cons r entries ih =>
    obtain ⟨hfirst, hrest⟩ := List.pairwise_cons.mp h
    rw [putAll, List.findSome?_cons]
    cases hput : put r.1 r.2 q with
    | none =>
      have hne : (q, v) ≠ r := by
        rintro rfl
        simp [put] at hput
      rw [← putAll, ih hrest]
      simp [hne]
    | some found =>
      have hprefix : q <+: r.1 := by
        by_contra hnot
        simp [put, hnot] at hput
      have hnone : (q, v) ∉ entries := fun hmem => (hfirst _ hmem).2 hprefix
      simp only [List.mem_cons, hnone, or_false]
      rw [← hput, put_eq_value_iff, Prod.ext_iff]
      exact and_congr_right fun _ => eq_comm

omit [DecidableEq κ] in
theorem lookup_of_apart [BEq κ] [LawfulBEq κ] (entries : List (List κ × β))
    (h : Apart entries) (q : List κ) (v : β) : entries.lookup q = some v ↔ (q, v) ∈ entries := by
  rw [List.lookup_eq_some_iff]
  constructor
  · rintro ⟨front, rest, rfl, -⟩
    simp
  · intro hmem
    obtain ⟨front, rest, rfl⟩ := List.append_of_mem hmem
    refine ⟨front, rest, rfl, fun r hr => ?_⟩
    have hapart := (List.pairwise_append.mp h).2.2 r hr (q, v) (List.mem_cons_self ..)
    rw [bne_iff_ne]
    rintro rfl
    exact hapart.1 List.prefix_rfl

/-! ### Entries with a common start -/

/-- The entries below a key. -/
def under (k : κ) (entries : List (List κ × β)) : List (List κ × β) :=
  entries.map fun r => (k :: r.1, r.2)

/-- A node with what is below it, if there is anything. -/
def hang (k : κ) (elements f : Forest κ β) : Forest κ β :=
  match elements with
  | .nil => f
  | elements => .inner k elements f

omit [DecidableEq κ] in
theorem hang_ne_nil (k : κ) (elements f : Forest κ β) (h : elements ≠ .nil) :
    hang k elements f = .inner k elements f := by
  cases elements with
  | nil => exact absurd rfl h
  | leaf => rfl
  | inner => rfl

theorem enter_ne_nil (path : List κ) (v : β) (f f' : Forest κ β) (h : enter path v f = some f') :
    f' ≠ .nil := by
  cases path with
  | nil => cases h
  | cons k path =>
    cases entered k path v f f' h with
    | last hend =>
      split
      · rintro rfl
        simp at *
      · simp
    | new => simp
    | below elements below hend hfind henter =>
      cases f with
      | nil => cases hfind
      | leaf =>
        rw [graft]
        split <;> simp
      | inner =>
        rw [graft]
        split <;> simp

theorem enterAll_ne_nil (entries : List (List κ × β)) (f f' : Forest κ β)
    (h : f.enterAll entries = some f') (hne : f ≠ .nil) : f' ≠ .nil := by
  induction entries generalizing f with
  | nil =>
    obtain rfl : f = f' := Option.some.inj h
    exact hne
  | cons r entries ih =>
    rw [enterAll, List.foldlM_cons] at h
    obtain ⟨next, hnext, hrest⟩ := Option.bind_eq_some_iff.mp h
    exact ih next hrest (enter_ne_nil r.1 r.2 f next hnext)

theorem find_hang_ne (k j : κ) (elements f : Forest κ β) (h : k ≠ j) :
    (hang k elements f).find j = f.find j := by
  by_cases hnil : elements = .nil
  · rw [hnil]
    rfl
  · rw [hang_ne_nil k elements f hnil, find, if_neg h]

omit [DecidableEq κ] in
theorem apart_under (k : κ) (entries : List (List κ × β)) (h : Apart entries) :
    Apart (under k entries) := by
  apply List.pairwise_map.mpr
  exact h.imp fun hpair => by simpa using hpair

/-- Entries below the node that is first. -/
theorem enterAll_first (k : κ) (entries : List (List κ × β)) (elements f : Forest κ β)
    (h : ∀ r ∈ entries, r.1 ≠ []) :
    (inner k elements f).enterAll (under k entries) =
      (elements.enterAll entries).map fun elements => .inner k elements f := by
  induction entries generalizing elements with
  | nil => rfl
  | cons r entries ih =>
    have hend : r.1 ≠ [] := h r (List.mem_cons_self ..)
    have hrest : ∀ r ∈ entries, r.1 ≠ [] := fun r hr => h r (List.mem_cons_of_mem _ hr)
    have hfind : (inner k elements f).find k = some (.inr elements) := by rw [find, if_pos rfl]
    have henter : enter (k :: r.1) r.2 (inner k elements f) =
        (enter r.1 r.2 elements).map fun below => .inner k below f := by
      rw [enter, if_neg hend, hfind]
      simp [graft]
    rw [under, List.map_cons, enterAll, List.foldlM_cons, henter, enterAll, List.foldlM_cons]
    cases hnext : enter r.1 r.2 elements with
    | none => rfl
    | some next => exact ih next hrest

/-- Entries below a key that is not yet there. -/
theorem enterAll_under (k : κ) (entries : List (List κ × β)) (elements f : Forest κ β)
    (hends : ∀ r ∈ entries, r.1 ≠ []) (hfind : f.find k = none)
    (h : (nil : Forest κ β).enterAll entries = some elements) :
    f.enterAll (under k entries) = some (hang k elements f) := by
  cases entries with
  | nil =>
    obtain rfl : Forest.nil = elements := Option.some.inj h
    rfl
  | cons r entries =>
    have hend : r.1 ≠ [] := hends r (List.mem_cons_self ..)
    have hrest : ∀ r ∈ entries, r.1 ≠ [] := fun r hr => hends r (List.mem_cons_of_mem _ hr)
    rw [enterAll, List.foldlM_cons] at h
    obtain ⟨first, hfirst, hentries⟩ := Option.bind_eq_some_iff.mp h
    have hne : elements ≠ .nil :=
      enterAll_ne_nil entries first elements hentries (enter_ne_nil r.1 r.2 .nil first hfirst)
    rw [under, List.map_cons, enterAll, List.foldlM_cons, enter, if_neg hend, hfind, hfirst]
    have hall := enterAll_first k entries first f hrest
    rw [show first.enterAll entries = some elements from hentries] at hall
    rw [hang_ne_nil k elements f hne]
    exact hall

end Forest

end OmapBootUtils.PathTree
