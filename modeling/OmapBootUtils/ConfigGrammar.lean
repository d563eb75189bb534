import OmapBootUtils.LcfgParser
import OmapBootUtils.LexicalGrammar

/-!
The grammar of a configuration file over its tokens, and the values a document
stands for, with the path kept as the parser keeps it. What the stack of the
automaton still demands of the tokens is compared with the grammar one token at
a time: a document is accepted, with its values, exactly when the grammar has it.
-/
namespace OmapBootUtils.ConfigGrammar

open ConfigHandler LcfgScanner ScannedText GrowingString LcfgParser JoinedWords LexicalGrammar

/-! ### Documents -/

mutual

inductive Value where
  | string (bytes : List UInt8)
  | list (items : Items)
  | map (settings : Settings)

inductive Items where
  | nil
  | cons (v : Value) (items : Items)

inductive Settings where
  | nil
  | cons (name : List UInt8) (v : Value) (settings : Settings)

end

def Items.length : Items → ℕ
  | .nil => 0
  | .cons _ items => items.length + 1

/-- The path after a part of a document, and its entries. -/
abbrev Evaluated := Option (List UInt8 × List Entry)

mutual

/-- The entries of a value whose path has been entered; the path is left. -/
def Value.eval : Value → List UInt8 → Evaluated
  | .string bytes, path => some (pop dot path, [(cText path, bytes)])
  | .list items, path => (items.eval 0 path).map fun r => (pop dot r.1, r.2)
  | .map settings, path => (settings.eval path).map fun r => (pop dot r.1, r.2)

def Items.eval : Items → ℕ → List UInt8 → Evaluated
  | .nil, _, path => some (path, [])
  | .cons v items, n, path => do
      let path ← pushNumber path n
      let (path, front) ← v.eval path
      let (path, back) ← items.eval (n + 1) path
      return (path, front ++ back)

def Settings.eval : Settings → List UInt8 → Evaluated
  | .nil, path => some (path, [])
  | .cons name v settings, path => do
      let (path, front) ← v.eval (push dot path name)
      let (path, back) ← settings.eval path
      return (path, front ++ back)

end

/-! ### Their tokens -/

mutual

inductive SpellsValue : Value → List Token → Prop
  | string (t : Token) (h : t.type = .string) : SpellsValue (.string t.string) [t]
  | list (o c : Token) (items : Items) (ts : List Token) (ho : o.type = .sbracketOpen)
      (hc : c.type = .sbracketClose) (h : SpellsItems items ts) :
      SpellsValue (.list items) (o :: (ts ++ [c]))
  | map (o c : Token) (settings : Settings) (ts : List Token) (ho : o.type = .braceOpen)
      (hc : c.type = .braceClose) (h : SpellsSettings settings ts) :
      SpellsValue (.map settings) (o :: (ts ++ [c]))

/-- Commas may stand anywhere between the items of a list. -/
inductive SpellsItems : Items → List Token → Prop
  | nil : SpellsItems .nil []
  | comma (t : Token) (items : Items) (ts : List Token) (ht : t.type = .comma)
      (h : SpellsItems items ts) : SpellsItems items (t :: ts)
  | cons (v : Value) (items : Items) (ts us : List Token) (hv : SpellsValue v ts)
      (h : SpellsItems items us) : SpellsItems (.cons v items) (ts ++ us)

inductive SpellsSettings : Settings → List Token → Prop
  | nil : SpellsSettings .nil []
  | cons (t e : Token) (v : Value) (settings : Settings) (ts us : List Token)
      (ht : t.type = .identifier) (he : e.type = .equals) (hv : SpellsValue v ts)
      (h : SpellsSettings settings us) :
      SpellsSettings (.cons (cText t.string) v settings) (t :: e :: (ts ++ us))

end

/-- The tokens are a document, and this is what it is worth. -/
def Document (ts : List Token) (entries : List Entry) : Prop :=
  ∃ settings path, SpellsSettings settings ts ∧ settings.eval [] = some (path, entries)

/-! ### What a stack demands -/

/-- The tokens that complete a stack element entered at the path; the path and the
entries they leave. -/
def Completes (f : StateElement) (path : List UInt8) (ts : List Token) (after : List UInt8)
    (entries : List Entry) : Prop :=
  match f.s with
  | .topLevel => ∃ settings, SpellsSettings settings ts ∧ settings.eval path = some (after, entries)
  | .expEquals => ∃ e us v, ts = e :: us ∧ e.type = .equals ∧ SpellsValue v us ∧
      v.eval path = some (after, entries)
  | .expValue => ∃ v, SpellsValue v ts ∧ v.eval path = some (after, entries)
  | .inList => ∃ us c items inside, ts = us ++ [c] ∧ c.type = .sbracketClose ∧
      SpellsItems items us ∧ items.eval f.listCounter path = some (inside, entries) ∧
      after = pop dot inside
  | .inMap => ∃ us c settings inside, ts = us ++ [c] ∧ c.type = .braceClose ∧
      SpellsSettings settings us ∧ settings.eval path = some (inside, entries) ∧
      after = pop dot inside
  | .invalid => False

/-- The tokens that complete a whole stack. -/
def Closes : List StateElement → List UInt8 → List Token → List Entry → Prop
  | [], _, ts, entries => ts = [] ∧ entries = []
  | f :: below, path, ts, entries => ∃ us vs after front back, ts = us ++ vs ∧
      Completes f path us after front ∧ Closes below after vs back ∧ entries = front ++ back

/-- The tokens that complete the document the automaton is in. -/
def Demands (p : Pda) (ts : List Token) (entries : List Entry) : Prop :=
  Closes (p.top :: p.below) p.path ts entries

/-! ### Evaluation step by step -/

section Evaluation

variable (path after : List UInt8) (entries : List Entry)

theorem list_eval_iff (items : Items) :
    (Value.list items).eval path = some (after, entries) ↔
      ∃ inside, items.eval 0 path = some (inside, entries) ∧ after = pop dot inside := by
  rw [Value.eval, Option.map_eq_some_iff]
  constructor
  · intro h
    obtain ⟨⟨inside, es⟩, heval, heq⟩ := h
    obtain ⟨rfl, rfl⟩ := Prod.mk.inj heq
    exact ⟨inside, heval, rfl⟩
  · intro h
    obtain ⟨inside, heval, rfl⟩ := h
    exact ⟨(inside, entries), heval, rfl⟩

theorem map_eval_iff (settings : Settings) :
    (Value.map settings).eval path = some (after, entries) ↔
      ∃ inside, settings.eval path = some (inside, entries) ∧ after = pop dot inside := by
  rw [Value.eval, Option.map_eq_some_iff]
  constructor
  · intro h
    obtain ⟨⟨inside, es⟩, heval, heq⟩ := h
    obtain ⟨rfl, rfl⟩ := Prod.mk.inj heq
    exact ⟨inside, heval, rfl⟩
  · intro h
    obtain ⟨inside, heval, rfl⟩ := h
    exact ⟨(inside, entries), heval, rfl⟩

theorem items_cons_eval_iff (v : Value) (items : Items) (n : ℕ) :
    (Items.cons v items).eval n path = some (after, entries) ↔
      ∃ inside middle front back, pushNumber path n = some inside ∧
        v.eval inside = some (middle, front) ∧
        items.eval (n + 1) middle = some (after, back) ∧ entries = front ++ back := by
  simp only [Items.eval, Option.bind_eq_bind, Option.pure_def, Option.bind_eq_some_iff]
  constructor
  · intro h
    obtain ⟨inside, hpush, ⟨middle, front⟩, hv, ⟨last, back⟩, hitems, heq⟩ := h
    obtain ⟨rfl, rfl⟩ := Prod.mk.inj (Option.some.inj heq)
    exact ⟨inside, middle, front, back, hpush, hv, hitems, rfl⟩
  · intro h
    obtain ⟨inside, middle, front, back, hpush, hv, hitems, rfl⟩ := h
    exact ⟨inside, hpush, (middle, front), hv, (after, back), hitems, rfl⟩

theorem settings_cons_eval_iff (name : List UInt8) (v : Value) (settings : Settings) :
    (Settings.cons name v settings).eval path = some (after, entries) ↔
      ∃ middle front back, v.eval (push dot path name) = some (middle, front) ∧
        settings.eval middle = some (after, back) ∧ entries = front ++ back := by
  simp only [Settings.eval, Option.bind_eq_bind, Option.pure_def, Option.bind_eq_some_iff]
  constructor
  · intro h
    obtain ⟨⟨middle, front⟩, hv, ⟨last, back⟩, hrest, heq⟩ := h
    obtain ⟨rfl, rfl⟩ := Prod.mk.inj (Option.some.inj heq)
    exact ⟨middle, front, back, hv, hrest, rfl⟩
  · intro h
    obtain ⟨middle, front, back, hv, hrest, rfl⟩ := h
    exact ⟨(middle, front), hv, (after, back), hrest, rfl⟩

end Evaluation

/-! ### One token of a stack element -/

/-- One stack element is completed, then the one it stands on. -/
def Both (f g : StateElement) (path : List UInt8) (ts : List Token) (after : List UInt8)
    (entries : List Entry) : Prop :=
  ∃ us vs middle front back, ts = us ++ vs ∧ Completes f path us middle front ∧
    Completes g middle vs after back ∧ entries = front ++ back

section Tokens

variable (n : ℕ) (path after : List UInt8) (t : Token) (ts : List Token) (entries : List Entry)

theorem not_spellsValue_nil (v : Value) : ¬ SpellsValue v [] := by
  intro h
  cases h

theorem completes_nil (f : StateElement) :
    Completes f path [] after entries ↔ f.s = .topLevel ∧ after = path ∧ entries = [] := by
  obtain ⟨state, n⟩ := f
  cases state with
  | topLevel =>
    constructor
    · intro h
      obtain ⟨settings, hspell, heval⟩ := h
      cases hspell
      obtain ⟨rfl, rfl⟩ := Prod.mk.inj (Option.some.inj heval)
      exact ⟨rfl, rfl, rfl⟩
    · intro h
      obtain ⟨-, rfl, rfl⟩ := h
      exact ⟨.nil, .nil, rfl⟩
  | expEquals => simp [Completes]
  | expValue =>
    constructor
    · intro h
      obtain ⟨v, hspell, -⟩ := h
      exact absurd hspell (not_spellsValue_nil v)
    · intro h
      cases h.1
  | inList => simp [Completes]
  | inMap => simp [Completes]
  | invalid => simp [Completes]

theorem completes_expEquals :
    Completes ⟨.expEquals, n⟩ path (t :: ts) after entries ↔
      t.type = .equals ∧ Completes ⟨.expValue, n⟩ path ts after entries := by
  constructor
  · intro h
    obtain ⟨e, us, v, heq, he, hspell, heval⟩ := h
    obtain ⟨rfl, rfl⟩ := List.cons.inj heq
    exact ⟨he, v, hspell, heval⟩
  · intro h
    obtain ⟨he, v, hspell, heval⟩ := h
    exact ⟨t, ts, v, rfl, he, hspell, heval⟩

theorem completes_expValue :
    Completes ⟨.expValue, n⟩ path (t :: ts) after entries ↔
      (t.type = .string ∧ ts = [] ∧ after = pop dot path ∧ entries = [(cText path, t.string)]) ∨
      (t.type = .sbracketOpen ∧ Completes ⟨.inList, 0⟩ path ts after entries) ∨
      (t.type = .braceOpen ∧ Completes ⟨.inMap, 0⟩ path ts after entries) := by
  constructor
  · intro h
    obtain ⟨v, hspell, heval⟩ := h
    cases hspell with
    | string _ ht =>
      obtain ⟨rfl, rfl⟩ := Prod.mk.inj (Option.some.inj heval)
      exact Or.inl ⟨ht, rfl, rfl, rfl⟩
    | list _ c items us ho hc hitems =>
      obtain ⟨inside, hinside, rfl⟩ := (list_eval_iff path after entries items).mp heval
      exact Or.inr (Or.inl ⟨ho, us, c, items, inside, rfl, hc, hitems, hinside, rfl⟩)
    | map _ c settings us ho hc hsettings =>
      obtain ⟨inside, hinside, rfl⟩ := (map_eval_iff path after entries settings).mp heval
      exact Or.inr (Or.inr ⟨ho, us, c, settings, inside, rfl, hc, hsettings, hinside, rfl⟩)
  · intro h
    rcases h with ⟨ht, rfl, rfl, rfl⟩ | ⟨ho, h⟩ | ⟨ho, h⟩
    · exact ⟨_, .string t ht, rfl⟩
    · obtain ⟨us, c, items, inside, rfl, hc, hitems, hinside, rfl⟩ := h
      exact ⟨_, .list t c items us ho hc hitems,
        (list_eval_iff path _ entries items).mpr ⟨inside, hinside, rfl⟩⟩
    · obtain ⟨us, c, settings, inside, rfl, hc, hsettings, hinside, rfl⟩ := h
      exact ⟨_, .map t c settings us ho hc hsettings,
        (map_eval_iff path _ entries settings).mpr ⟨inside, hinside, rfl⟩⟩

/-- A value of a list and what follows it, with the path entered. -/
def ItemThen (n : ℕ) (inside after : List UInt8) (t : Token) (ts : List Token)
    (entries : List Entry) : Prop :=
  (t.type = .string ∧ ∃ back, Completes ⟨.inList, n + 1⟩ (pop dot inside) ts after back ∧
    entries = (cText inside, t.string) :: back) ∨
  (t.type = .sbracketOpen ∧ Both ⟨.inList, 0⟩ ⟨.inList, n + 1⟩ inside ts after entries) ∨
  (t.type = .braceOpen ∧ Both ⟨.inMap, 0⟩ ⟨.inList, n + 1⟩ inside ts after entries)

/-- The value the first token opens, followed by the rest of the list. -/
theorem itemThen_of_value (v : Value) (items : Items) (us vs : List Token) (c : Token)
    (inside middle last : List UInt8) (front back : List Entry) (hspell : SpellsValue v (t :: us))
    (hv : v.eval inside = some (middle, front)) (hitems : SpellsItems items vs)
    (heval : items.eval (n + 1) middle = some (last, back)) (hc : c.type = .sbracketClose) :
    ItemThen n inside (pop dot last) t (us ++ (vs ++ [c])) (front ++ back) := by
  have hrest : Completes ⟨.inList, n + 1⟩ middle (vs ++ [c]) (pop dot last) back :=
    ⟨vs, c, items, last, rfl, hc, hitems, heval, rfl⟩
  cases hspell with
  | string _ ht =>
    obtain ⟨rfl, rfl⟩ := Prod.mk.inj (Option.some.inj hv)
    exact Or.inl ⟨ht, back, hrest, rfl⟩
  | list _ d inner ws ho hd hinner =>
    obtain ⟨end_, hend, rfl⟩ := (list_eval_iff inside middle front inner).mp hv
    exact Or.inr (Or.inl ⟨ho, ws ++ [d], vs ++ [c], _, front, back, rfl,
      ⟨ws, d, inner, end_, rfl, hd, hinner, hend, rfl⟩, hrest, rfl⟩)
  | map _ d inner ws ho hd hinner =>
    obtain ⟨end_, hend, rfl⟩ := (map_eval_iff inside middle front inner).mp hv
    exact Or.inr (Or.inr ⟨ho, ws ++ [d], vs ++ [c], _, front, back, rfl,
      ⟨ws, d, inner, end_, rfl, hd, hinner, hend, rfl⟩, hrest, rfl⟩)

theorem value_of_itemThen (inside : List UInt8) (h : ItemThen n inside after t ts entries) :
    ∃ v items us vs c middle last front back, ts = us ++ (vs ++ [c]) ∧ SpellsValue v (t :: us) ∧
      v.eval inside = some (middle, front) ∧ SpellsItems items vs ∧
      items.eval (n + 1) middle = some (last, back) ∧ c.type = .sbracketClose ∧
      after = pop dot last ∧ entries = front ++ back := by
  rcases h with ⟨ht, back, hrest, rfl⟩ |
    ⟨ho, us, vs, middle, front, back, rfl, hfirst, hrest, rfl⟩ |
    ⟨ho, us, vs, middle, front, back, rfl, hfirst, hrest, rfl⟩
  · obtain ⟨vs, c, items, last, rfl, hc, hitems, heval, rfl⟩ := hrest
    exact ⟨_, items, [], vs, c, _, last, _, back, rfl, .string t ht, rfl, hitems, heval, hc, rfl,
      rfl⟩
  · obtain ⟨vs, c, items, last, rfl, hc, hitems, heval, rfl⟩ := hrest
    obtain ⟨ws, d, inner, end_, rfl, hd, hinner, hend, rfl⟩ := hfirst
    exact ⟨_, items, ws ++ [d], vs, c, _, last, front, back, rfl, .list t d inner ws ho hd hinner,
      (list_eval_iff inside _ front inner).mpr ⟨end_, hend, rfl⟩, hitems, heval, hc, rfl, rfl⟩
  · obtain ⟨vs, c, items, last, rfl, hc, hitems, heval, rfl⟩ := hrest
    obtain ⟨ws, d, inner, end_, rfl, hd, hinner, hend, rfl⟩ := hfirst
    exact ⟨_, items, ws ++ [d], vs, c, _, last, front, back, rfl, .map t d inner ws ho hd hinner,
      (map_eval_iff inside _ front inner).mpr ⟨end_, hend, rfl⟩, hitems, heval, hc, rfl, rfl⟩

theorem completes_inList :
    Completes ⟨.inList, n⟩ path (t :: ts) after entries ↔
      (t.type = .comma ∧ Completes ⟨.inList, n⟩ path ts after entries) ∨
      (t.type = .sbracketClose ∧ ts = [] ∧ after = pop dot path ∧ entries = []) ∨
      ∃ inside, pushNumber path n = some inside ∧ ItemThen n inside after t ts entries := by
  constructor
  · intro h
    obtain ⟨us, c, items, last, heq, hc, hspell, heval, rfl⟩ := h
    cases hspell with
    | nil =>
      obtain ⟨rfl, rfl⟩ := List.cons.inj heq
      obtain ⟨rfl, rfl⟩ := Prod.mk.inj (Option.some.inj heval)
      exact Or.inr (Or.inl ⟨hc, rfl, rfl, rfl⟩)
    | comma d _ ws hd hws =>
      obtain ⟨rfl, rfl⟩ := List.cons.inj heq
      exact Or.inl ⟨hd, ws, c, items, last, rfl, hc, hws, heval, rfl⟩
    | cons v items us vs hv hitems =>
      obtain ⟨inside, middle, front, back, hpush, hfirst, hrest, rfl⟩ :=
        (items_cons_eval_iff path last entries v items n).mp heval
      refine Or.inr (Or.inr ⟨inside, hpush, ?_⟩)
      cases us with
      | nil => exact absurd hv (not_spellsValue_nil v)
      | cons x us =>
        rw [List.append_assoc, List.cons_append] at heq
        obtain ⟨rfl, rfl⟩ := List.cons.inj heq
        exact itemThen_of_value n t v items us vs c inside middle last front back hv hfirst hitems
          hrest hc
  · intro h
    rcases h with ⟨ht, h⟩ | ⟨ht, rfl, rfl, rfl⟩ | ⟨inside, hpush, h⟩
    · obtain ⟨us, c, items, last, rfl, hc, hspell, heval, rfl⟩ := h
      exact ⟨t :: us, c, items, last, rfl, hc, .comma t items us ht hspell, heval, rfl⟩
    · exact ⟨[], t, .nil, path, rfl, ht, .nil, rfl, rfl⟩
    · obtain ⟨v, items, us, vs, c, middle, last, front, back, rfl, hv, hfirst, hitems, heval, hc,
        rfl, rfl⟩ := value_of_itemThen n after t ts entries inside h
      refine ⟨(t :: us) ++ vs, c, .cons v items, last, by simp, hc, .cons v items _ vs hv hitems,
        ?_, rfl⟩
      exact (items_cons_eval_iff path last _ v items n).mpr
        ⟨inside, middle, front, back, hpush, hfirst, heval, rfl⟩

/-- A setting and the settings after it, when they are spelled by all tokens. -/
theorem spells_settings_cons (settings : Settings) (h : SpellsSettings settings (t :: ts))
    (heval : settings.eval path = some (after, entries)) :
    t.type = .identifier ∧ ∃ us vs middle front back rest, ts = us ++ vs ∧
      Completes ⟨.expEquals, 0⟩ (push dot path (cText t.string)) us middle front ∧
      SpellsSettings rest vs ∧ rest.eval middle = some (after, back) ∧
      entries = front ++ back := by
  cases h with
  | cons _ e v rest us vs ht he hv hrest =>
    obtain ⟨middle, front, back, hfirst, hback, rfl⟩ :=
      (settings_cons_eval_iff path after entries _ v rest).mp heval
    exact ⟨ht, e :: us, vs, middle, front, back, rest, rfl, ⟨e, us, v, rfl, he, hv, hfirst⟩,
      hrest, hback, rfl⟩

theorem settings_of_parts (us vs : List Token) (middle : List UInt8) (front back : List Entry)
    (rest : Settings) (ht : t.type = .identifier)
    (hfirst : Completes ⟨.expEquals, 0⟩ (push dot path (cText t.string)) us middle front)
    (hrest : SpellsSettings rest vs) (hback : rest.eval middle = some (after, back)) :
    ∃ settings, SpellsSettings settings (t :: (us ++ vs)) ∧
      settings.eval path = some (after, front ++ back) := by
  obtain ⟨e, us, v, rfl, he, hv, heval⟩ := hfirst
  exact ⟨_, .cons t e v rest us vs ht he hv hrest,
    (settings_cons_eval_iff path after _ _ v rest).mpr ⟨middle, front, back, heval, hback, rfl⟩⟩

theorem completes_topLevel :
    Completes ⟨.topLevel, n⟩ path (t :: ts) after entries ↔
      t.type = .identifier ∧
        Both ⟨.expEquals, 0⟩ ⟨.topLevel, n⟩ (push dot path (cText t.string)) ts after entries := by
  constructor
  · intro h
    obtain ⟨settings, hspell, heval⟩ := h
    obtain ⟨ht, us, vs, middle, front, back, rest, rfl, hfirst, hrest, hback, rfl⟩ :=
      spells_settings_cons path after t ts entries settings hspell heval
    exact ⟨ht, us, vs, middle, front, back, rfl, hfirst, ⟨rest, hrest, hback⟩, rfl⟩
  · intro h
    obtain ⟨ht, us, vs, middle, front, back, rfl, hfirst, ⟨rest, hrest, hback⟩, rfl⟩ := h
    exact settings_of_parts path after t us vs middle front back rest ht hfirst hrest hback

theorem completes_inMap :
    Completes ⟨.inMap, n⟩ path (t :: ts) after entries ↔
      (t.type = .identifier ∧
        Both ⟨.expEquals, 0⟩ ⟨.inMap, n⟩ (push dot path (cText t.string)) ts after entries) ∨
      (t.type = .braceClose ∧ ts = [] ∧ after = pop dot path ∧ entries = []) := by
  constructor
  · intro h
    obtain ⟨us, c, settings, last, heq, hc, hspell, heval, rfl⟩ := h
    cases us with
    | nil =>
      obtain ⟨rfl, rfl⟩ := List.cons.inj heq
      cases hspell
      obtain ⟨rfl, rfl⟩ := Prod.mk.inj (Option.some.inj heval)
      exact Or.inr ⟨hc, rfl, rfl, rfl⟩
    | cons x us =>
      obtain ⟨rfl, rfl⟩ := List.cons.inj heq
      obtain ⟨ht, us, vs, middle, front, back, rest, rfl, hfirst, hrest, hback, rfl⟩ :=
        spells_settings_cons path last t _ entries settings hspell heval
      exact Or.inl ⟨ht, us, vs ++ [c], middle, front, back, by simp, hfirst,
        ⟨vs, c, rest, last, rfl, hc, hrest, hback, rfl⟩, rfl⟩
  · intro h
    rcases h with ⟨ht, us, vs, middle, front, back, rfl, hfirst, hlast, rfl⟩ | ⟨ht, rfl, rfl, rfl⟩
    · obtain ⟨ws, c, rest, last, rfl, hc, hrest, hback, rfl⟩ := hlast
      obtain ⟨settings, hspell, heval⟩ :=
        settings_of_parts path last t us ws middle front back rest ht hfirst hrest hback
      exact ⟨t :: (us ++ ws), c, settings, last, by simp, hc, hspell, heval, rfl⟩
    · exact ⟨[], t, .nil, path, rfl, ht, .nil, rfl, rfl⟩

end Tokens

/-! ### One token of the stack -/

section Stack

variable (below : List StateElement) (path : List UInt8) (t : Token) (ts : List Token)
  (entries : List Entry)

theorem closes_cons (f : StateElement) (h : Nested f below) :
    Closes (f :: below) path (t :: ts) entries ↔
      ∃ us vs after front back, ts = us ++ vs ∧ Completes f path (t :: us) after front ∧
        Closes below after vs back ∧ entries = front ++ back := by
  constructor
  · intro hcloses
    obtain ⟨us, vs, after, front, back, heq, hfirst, hrest, rfl⟩ := hcloses
    cases us with
    | nil =>
      have htop := ((completes_nil path after front f).mp hfirst).1
      cases below with
      | nil =>
        rw [hrest.1] at heq
        cases heq
      | cons g below =>
        have hstate := h.1.state
        rw [htop] at hstate
        simp at hstate
    | cons x us =>
      obtain ⟨rfl, rfl⟩ := List.cons.inj heq
      exact ⟨us, vs, after, front, back, rfl, hfirst, hrest, rfl⟩
  · intro hparts
    obtain ⟨us, vs, after, front, back, rfl, hfirst, hrest, rfl⟩ := hparts
    exact ⟨t :: us, vs, after, front, back, rfl, hfirst, hrest, rfl⟩

theorem closes_both (f g : StateElement) :
    Closes (f :: g :: below) path ts entries ↔
      ∃ us vs after front back, ts = us ++ vs ∧ Both f g path us after front ∧
        Closes below after vs back ∧ entries = front ++ back := by
  constructor
  · intro h
    obtain ⟨us, _, middle, front, _, rfl, hfirst,
      ⟨vs, ws, after, mid, back, rfl, hsecond, hrest, rfl⟩, rfl⟩ := h
    exact ⟨us ++ vs, ws, after, front ++ mid, back, by simp,
      ⟨us, vs, middle, front, mid, rfl, hfirst, hsecond, rfl⟩, hrest, by simp⟩
  · intro h
    obtain ⟨_, ws, after, _, back, rfl, ⟨us, vs, middle, front, mid, rfl, hfirst, hsecond, rfl⟩,
      hrest, rfl⟩ := h
    exact ⟨us, vs ++ ws, middle, front, mid ++ back, by simp, hfirst,
      ⟨vs, ws, after, mid, back, rfl, hsecond, hrest, rfl⟩, by simp⟩

end Stack

/-- The token is taken, and the automaton demands the tokens after it. -/
def Follows (t : Token) (p : Pda) (ts : List Token) (entries : List Entry) : Prop :=
  ∃ p' front back, handle t p = some (p', none) ∧ p'.values = p.values ++ front ∧
    Demands p' ts back ∧ entries = front ++ back

theorem not_follows_reject (t : Token) (p : Pda) (ts : List Token) (entries : List Entry)
    (expected : String) (h : handle t p = reject t p expected) : ¬ Follows t p ts entries := by
  intro hfollows
  obtain ⟨p', front, back, hhandle, -⟩ := hfollows
  rw [hhandle, reject] at h
  cases h

theorem follows_iff (t : Token) (p q : Pda) (ts : List Token) (entries : List Entry)
    (h : handle t p = some (q, none)) :
    Follows t p ts entries ↔
      ∃ front back, q.values = p.values ++ front ∧ Demands q ts back ∧ entries = front ++ back := by
  constructor
  · intro hfollows
    obtain ⟨p', front, back, hhandle, hrest⟩ := hfollows
    rw [h] at hhandle
    obtain ⟨rfl, -⟩ := Prod.mk.inj (Option.some.inj hhandle)
    exact ⟨front, back, hrest⟩
  · intro hparts
    obtain ⟨front, back, hrest⟩ := hparts
    exact ⟨q, front, back, h, hrest⟩

/-- The token adds no value. -/
theorem follows_silent (t : Token) (p q : Pda) (ts : List Token) (entries : List Entry)
    (h : handle t p = some (q, none)) (hvalues : q.values = p.values) :
    Follows t p ts entries ↔ Demands q ts entries := by
  rw [follows_iff t p q ts entries h, hvalues]
  constructor
  · intro hparts
    obtain ⟨front, back, hfront, hdemands, rfl⟩ := hparts
    rw [List.self_eq_append_right.mp hfront, List.nil_append]
    exact hdemands
  · intro hdemands
    exact ⟨[], entries, by simp, hdemands, rfl⟩

/-- The token adds one value. -/
theorem follows_value (t : Token) (p q : Pda) (ts : List Token) (entries : List Entry)
    (entry : Entry) (h : handle t p = some (q, none)) (hvalues : q.values = p.values ++ [entry]) :
    Follows t p ts entries ↔ ∃ back, Demands q ts back ∧ entries = entry :: back := by
  rw [follows_iff t p q ts entries h, hvalues]
  constructor
  · intro hparts
    obtain ⟨front, back, hfront, hdemands, rfl⟩ := hparts
    rw [← List.append_cancel_left hfront]
    exact ⟨back, hdemands, rfl⟩
  · intro hparts
    obtain ⟨back, hdemands, rfl⟩ := hparts
    exact ⟨[entry], back, rfl, hdemands, rfl⟩

section Step

variable (n : ℕ) (below : List StateElement) (path : List UInt8) (values : List Entry) (t : Token)
  (ts : List Token) (entries : List Entry)

theorem demands_expEquals (h : Nested ⟨.expEquals, n⟩ below) :
    Demands ⟨⟨.expEquals, n⟩, below, path, values⟩ (t :: ts) entries ↔
      Follows t ⟨⟨.expEquals, n⟩, below, path, values⟩ ts entries := by
  rw [Demands, closes_cons below path t ts entries _ h]
  simp only [completes_expEquals]
  by_cases ht : t.type = .equals
  · rw [follows_silent t ⟨⟨.expEquals, n⟩, below, path, values⟩
      ⟨⟨.expValue, n⟩, below, path, values⟩ ts entries
      (by simp [handle, handleEquals, ht, accept, Pda.setState]) rfl]
    simp only [ht, true_and]
    rfl
  · have hreject := not_follows_reject t ⟨⟨.expEquals, n⟩, below, path, values⟩ ts entries _
      (if_neg ht)
    simp [ht, hreject]

theorem demands_expValue (h : Nested ⟨.expValue, n⟩ below) :
    Demands ⟨⟨.expValue, n⟩, below, path, values⟩ (t :: ts) entries ↔
      Follows t ⟨⟨.expValue, n⟩, below, path, values⟩ ts entries := by
  obtain ⟨g, rest, hbelow, -, -, -⟩ := leave_spec ⟨⟨.expValue, n⟩, below, path, values⟩ h (by simp)
  have hzero : n = 0 := by
    simp only at hbelow
    rw [hbelow] at h
    exact h.1.counter (by simp)
  simp only at hbelow
  rw [Demands, closes_cons below path t ts entries _ h]
  subst hbelow hzero
  simp only [completes_expValue]
  by_cases hstring : t.type = .string
  · rw [follows_value t ⟨⟨.expValue, 0⟩, g :: rest, path, values⟩
      ⟨g, rest, pop dot path, values ++ [(cText path, t.string)]⟩ ts entries
      (cText path, t.string) (by simp [handle, handleValue, hstring, accept, Pda.addValue, Pda.leave])
      rfl]
    simp only [hstring, true_and, reduceCtorEq, false_and, or_false]
    constructor
    · intro hparts
      obtain ⟨us, vs, after, front, back, rfl, ⟨rfl, rfl, rfl⟩, hrest, rfl⟩ := hparts
      exact ⟨back, hrest, rfl⟩
    · intro hparts
      obtain ⟨back, hrest, rfl⟩ := hparts
      exact ⟨[], ts, _, _, back, rfl, ⟨rfl, rfl, rfl⟩, hrest, rfl⟩
  · by_cases hlist : t.type = .sbracketOpen
    · rw [follows_silent t ⟨⟨.expValue, 0⟩, g :: rest, path, values⟩
        ⟨⟨.inList, 0⟩, g :: rest, path, values⟩ ts entries
        (by simp [handle, handleValue, hlist, accept, Pda.setState]) rfl]
      simp only [hlist, true_and, reduceCtorEq, false_and, or_false, false_or]
      rfl
    · by_cases hmap : t.type = .braceOpen
      · rw [follows_silent t ⟨⟨.expValue, 0⟩, g :: rest, path, values⟩
          ⟨⟨.inMap, 0⟩, g :: rest, path, values⟩ ts entries
          (by simp [handle, handleValue, hmap, accept, Pda.setState]) rfl]
        simp only [hmap, true_and, reduceCtorEq, false_and, false_or]
        rfl
      · have hreject := not_follows_reject t ⟨⟨.expValue, 0⟩, g :: rest, path, values⟩ ts entries
          _ (by simp [handle, handleValue, hstring, hlist, hmap]; rfl)
        simp [hstring, hlist, hmap, hreject]

theorem demands_topLevel (h : Nested ⟨.topLevel, n⟩ below) :
    Demands ⟨⟨.topLevel, n⟩, below, path, values⟩ (t :: ts) entries ↔
      Follows t ⟨⟨.topLevel, n⟩, below, path, values⟩ ts entries := by
  rw [Demands, closes_cons below path t ts entries _ h]
  simp only [completes_topLevel]
  by_cases ht : t.type = .identifier
  · rw [follows_silent t ⟨⟨.topLevel, n⟩, below, path, values⟩
      ⟨⟨.expEquals, 0⟩, ⟨.topLevel, n⟩ :: below, push dot path (cText t.string), values⟩ ts entries
      (by simp [handle, handleSetting, ht, accept, Pda.pushState]) rfl]
    simp only [ht, true_and]
    rw [Demands, closes_both]
  · have hreject := not_follows_reject t ⟨⟨.topLevel, n⟩, below, path, values⟩ ts entries _
      (by simp [handle, handleSetting, ht]; rfl)
    simp [ht, hreject]

theorem demands_inMap (h : Nested ⟨.inMap, n⟩ below) :
    Demands ⟨⟨.inMap, n⟩, below, path, values⟩ (t :: ts) entries ↔
      Follows t ⟨⟨.inMap, n⟩, below, path, values⟩ ts entries := by
  obtain ⟨g, rest, hbelow, -, -, -⟩ := leave_spec ⟨⟨.inMap, n⟩, below, path, values⟩ h (by simp)
  rw [Demands, closes_cons below path t ts entries _ h]
  simp only at hbelow
  subst hbelow
  simp only [completes_inMap]
  by_cases ht : t.type = .identifier
  · rw [follows_silent t ⟨⟨.inMap, n⟩, g :: rest, path, values⟩
      ⟨⟨.expEquals, 0⟩, ⟨.inMap, n⟩ :: g :: rest, push dot path (cText t.string), values⟩ ts entries
      (by simp [handle, handleSetting, ht, accept, Pda.pushState]) rfl]
    simp only [ht, true_and, reduceCtorEq, false_and, or_false]
    rw [Demands, closes_both]
  · by_cases hclose : t.type = .braceClose
    · rw [follows_silent t ⟨⟨.inMap, n⟩, g :: rest, path, values⟩
        ⟨g, rest, pop dot path, values⟩ ts entries
        (by simp [handle, handleSetting, hclose, accept, Pda.leave]) rfl]
      simp only [hclose, true_and, reduceCtorEq, false_and, false_or]
      constructor
      · intro hparts
        obtain ⟨us, vs, after, front, back, rfl, ⟨rfl, rfl, rfl⟩, hrest, rfl⟩ := hparts
        exact hrest
      · intro hrest
        exact ⟨[], ts, _, [], entries, rfl, ⟨rfl, rfl, rfl⟩, hrest, rfl⟩
    · have hreject := not_follows_reject t ⟨⟨.inMap, n⟩, g :: rest, path, values⟩ ts entries _
        (by simp [handle, handleSetting, ht, hclose]; rfl)
      simp [ht, hclose, hreject]

/-- A token that starts a value is taken when its number has a place in the path. -/
theorem demands_item (h : Nested ⟨.inList, n⟩ below)
    (ht : t.type = .string ∨ t.type = .sbracketOpen ∨ t.type = .braceOpen) :
    Demands ⟨⟨.inList, n⟩, below, path, values⟩ (t :: ts) entries ↔
      Follows t ⟨⟨.inList, n⟩, below, path, values⟩ ts entries := by
  have hcomma : t.type ≠ .comma := by rcases ht with ht | ht | ht <;> simp [ht]
  have hclose : t.type ≠ .sbracketClose := by rcases ht with ht | ht | ht <;> simp [ht]
  rw [Demands, closes_cons below path t ts entries _ h]
  simp only [completes_inList, hcomma, hclose, false_and, false_or]
  cases hpush : pushNumber path n with
  | none =>
    have hnone : handle t ⟨⟨.inList, n⟩, below, path, values⟩ = none := by
      rcases ht with ht | ht | ht <;>
        simp [handle, handleItem, ht, accept, Pda.enterItem, hpush]
    constructor
    · intro hparts
      obtain ⟨us, vs, after, front, back, -, ⟨inside, hinside, -⟩, -⟩ := hparts
      cases hinside
    · intro hfollows
      obtain ⟨p', front, back, hhandle, -⟩ := hfollows
      rw [hnone] at hhandle
      cases hhandle
  | some inside =>
    simp only [Option.some.injEq, exists_eq_left', ItemThen]
    rcases ht with ht | ht | ht
    · rw [follows_value t ⟨⟨.inList, n⟩, below, path, values⟩
        ⟨⟨.inList, n + 1⟩, below, pop dot inside, values ++ [(cText inside, t.string)]⟩ ts entries
        (cText inside, t.string)
        (by simp [handle, handleItem, ht, accept, Pda.enterItem, hpush, Pda.addValue]) rfl]
      simp only [ht, true_and, reduceCtorEq, false_and, or_false]
      constructor
      · intro hparts
        obtain ⟨us, vs, after, _, back, rfl, ⟨front, hfirst, rfl⟩, hrest, rfl⟩ := hparts
        exact ⟨front ++ back, ⟨us, vs, after, front, back, rfl, hfirst, hrest, rfl⟩, rfl⟩
      · intro hparts
        obtain ⟨_, ⟨us, vs, after, front, back, rfl, hfirst, hrest, rfl⟩, rfl⟩ := hparts
        exact ⟨us, vs, after, _, back, rfl, ⟨front, hfirst, rfl⟩, hrest, rfl⟩
    · rw [follows_silent t ⟨⟨.inList, n⟩, below, path, values⟩
        ⟨⟨.inList, 0⟩, ⟨.inList, n + 1⟩ :: below, inside, values⟩ ts entries
        (by simp [handle, handleItem, ht, accept, Pda.enterItem, hpush, Pda.pushState]) rfl]
      simp only [ht, true_and, reduceCtorEq, false_and, or_false, false_or]
      rw [Demands, closes_both]
    · rw [follows_silent t ⟨⟨.inList, n⟩, below, path, values⟩
        ⟨⟨.inMap, 0⟩, ⟨.inList, n + 1⟩ :: below, inside, values⟩ ts entries
        (by simp [handle, handleItem, ht, accept, Pda.enterItem, hpush, Pda.pushState]) rfl]
      simp only [ht, true_and, reduceCtorEq, false_and, false_or]
      rw [Demands, closes_both]

theorem demands_inList (h : Nested ⟨.inList, n⟩ below) :
    Demands ⟨⟨.inList, n⟩, below, path, values⟩ (t :: ts) entries ↔
      Follows t ⟨⟨.inList, n⟩, below, path, values⟩ ts entries := by
  obtain ⟨g, rest, hbelow, -, -, -⟩ := leave_spec ⟨⟨.inList, n⟩, below, path, values⟩ h (by simp)
  simp only at hbelow
  by_cases hitem : t.type = .string ∨ t.type = .sbracketOpen ∨ t.type = .braceOpen
  · exact demands_item n below path values t ts entries h hitem
  · obtain ⟨hstring, hlist, hmap⟩ : t.type ≠ .string ∧ t.type ≠ .sbracketOpen ∧
        t.type ≠ .braceOpen := by simpa using hitem
    rw [Demands, closes_cons below path t ts entries _ h]
    subst hbelow
    simp only [completes_inList, ItemThen, hstring, hlist, hmap, false_and, or_false, and_false,
      exists_false]
    by_cases hcomma : t.type = .comma
    · rw [follows_silent t ⟨⟨.inList, n⟩, g :: rest, path, values⟩
        ⟨⟨.inList, n⟩, g :: rest, path, values⟩ ts entries
        (by simp [handle, handleItem, hcomma, accept]) rfl]
      simp only [hcomma, true_and, reduceCtorEq, false_and, or_false]
      rfl
    · by_cases hclose : t.type = .sbracketClose
      · rw [follows_silent t ⟨⟨.inList, n⟩, g :: rest, path, values⟩
          ⟨g, rest, pop dot path, values⟩ ts entries
          (by simp [handle, handleItem, hclose, accept, Pda.leave]) rfl]
        simp only [hclose, true_and, reduceCtorEq, false_and, false_or]
        constructor
        · intro hparts
          obtain ⟨us, vs, after, front, back, rfl, ⟨rfl, rfl, rfl⟩, hrest, rfl⟩ := hparts
          exact hrest
        · intro hrest
          exact ⟨[], ts, _, [], entries, rfl, ⟨rfl, rfl, rfl⟩, hrest, rfl⟩
      · have hreject := not_follows_reject t ⟨⟨.inList, n⟩, g :: rest, path, values⟩ ts entries _
          (by simp [handle, handleItem, hstring, hlist, hmap, hcomma, hclose]; rfl)
        simp [hcomma, hclose, hreject]

end Step

/-- What the automaton demands before a token is that the token is taken, and what it
demands afterwards. -/
theorem demands_cons (p : Pda) (t : Token) (ts : List Token) (entries : List Entry)
    (h : p.Nested) : Demands p (t :: ts) entries ↔ Follows t p ts entries := by
  obtain ⟨⟨state, n⟩, below, path, values⟩ := p
  cases state with
  | topLevel => exact demands_topLevel n below path values t ts entries h
  | expEquals => exact demands_expEquals n below path values t ts entries h
  | expValue => exact demands_expValue n below path values t ts entries h
  | inList => exact demands_inList n below path values t ts entries h
  | inMap => exact demands_inMap n below path values t ts entries h
  | invalid => exact absurd rfl (Nested.valid h)

/-- Without tokens only the top level is complete. -/
theorem demands_nil (p : Pda) (entries : List Entry) (h : p.Nested) :
    Demands p [] entries ↔ p.complete ∧ entries = [] := by
  obtain ⟨f, below, path, values⟩ := p
  constructor
  · intro hdemands
    obtain ⟨us, vs, after, front, back, heq, hfirst, hrest, rfl⟩ := hdemands
    obtain ⟨rfl, rfl⟩ := List.append_eq_nil_iff.mp heq.symm
    obtain ⟨htop, rfl, rfl⟩ := (completes_nil path after front f).mp hfirst
    cases below with
    | nil => exact ⟨by simp [Pda.complete, htop], hrest.2⟩
    | cons g below =>
      have hstate := h.1.state
      simp only at hstate htop
      rw [htop] at hstate
      simp at hstate
  · intro hcomplete
    obtain ⟨hcomplete, rfl⟩ := hcomplete
    obtain ⟨htop, rfl⟩ : f.s = .topLevel ∧ below = [] := by simpa [Pda.complete] using hcomplete
    exact ⟨[], [], path, [], [], rfl, (completes_nil path path [] f).mpr ⟨htop, rfl, rfl⟩,
      ⟨rfl, rfl⟩, rfl⟩

/-! ### Whole documents -/

theorem enterItem_values (p q : Pda) (h : p.enterItem = some q) : q.values = p.values := by
  obtain ⟨path, -, rfl⟩ := Option.map_eq_some_iff.mp h
  rfl

theorem leave_values (p q : Pda) (h : p.leave = some q) : q.values = p.values := by
  unfold Pda.leave at h
  split at h
  · cases h
  · rw [← Option.some.inj h]

theorem handle_values (t : Token) (p p' : Pda) (raised : Option LcfgError)
    (h : handle t p = some (p', raised)) : ∃ front, p'.values = p.values ++ front := by
  have hsame : ∀ q : Option Pda, (∀ r, q = some r → r.values = p.values) →
      accept q = some (p', raised) → ∃ front, p'.values = p.values ++ front := by
    intro q hq haccept
    obtain ⟨hsome, -⟩ := accept_some q p' raised haccept
    exact ⟨[], by rw [hq p' hsome, List.append_nil]⟩
  have hreject : ∀ expected, reject t p expected = some (p', raised) →
      ∃ front, p'.values = p.values ++ front := by
    intro expected hr
    obtain ⟨rfl, -⟩ := Prod.mk.inj (Option.some.inj hr)
    exact ⟨[], by simp [Pda.setState]⟩
  have hsome : ∀ q : Pda, accept (some q) = some (p', raised) → q.values = p.values →
      ∃ front, p'.values = p.values ++ front := fun q haccept hq =>
    hsame (some q) (fun r hr => by rw [← Option.some.inj hr, hq]) haccept
  have hsetting : handleSetting t p = some (p', raised) →
      ∃ front, p'.values = p.values ++ front := by
    intro h
    unfold handleSetting at h
    split at h
    · exact hsome _ h rfl
    · split at h
      · exact hsame _ (leave_values p) h
      · exact hreject _ h
  unfold handle at h
  split at h
  · exact hsetting h
  · exact hsetting h
  · unfold handleEquals at h
    split at h
    · exact hsome _ h rfl
    · exact hreject _ h
  · unfold handleValue at h
    split at h
    · obtain ⟨hleave, -⟩ := accept_some _ p' raised h
      exact ⟨[(cText p.path, t.string)], leave_values _ p' hleave⟩
    · split at h
      · exact hsome _ h rfl
      · split at h
        · exact hsome _ h rfl
        · exact hreject _ h
  · unfold handleItem at h
    split at h
    · exact hsome _ h rfl
    · split at h
      · obtain ⟨hmap, -⟩ := accept_some _ p' raised h
        obtain ⟨q, hq, rfl⟩ := Option.map_eq_some_iff.mp hmap
        exact ⟨[(cText q.path, t.string)], by simp [Pda.addValue, enterItem_values p q hq]⟩
      · split at h
        · apply hsame _ _ h
          intro r hr
          obtain ⟨q, hq, rfl⟩ := Option.map_eq_some_iff.mp hr
          exact enterItem_values p q hq
        · split at h
          · apply hsame _ _ h
            intro r hr
            obtain ⟨q, hq, rfl⟩ := Option.map_eq_some_iff.mp hr
            exact enterItem_values p q hq
          · split at h
            · exact hsame _ (leave_values p) h
            · exact hreject _ h
  · cases h

/-- The tokens of a text, then its end. -/
def streamOf (ts : List Token) (ending : TokenStream) : TokenStream := ts.foldr .token ending

theorem streamOf_append (us vs : List Token) (s : TokenStream) :
    streamOf (us ++ vs) s = streamOf us (streamOf vs s) := List.foldr_append ..

theorem failure_streamOf (ts : List Token) (s : TokenStream) (h : failure s = none) :
    failure (streamOf ts s) = none := by
  cases ts with
  | nil => exact h
  | cons t ts => rfl

theorem parseStream_token (t : Token) (ts : List Token) (s : TokenStream) (p : Pda)
    (h : failure s = none) :
    parseStream (streamOf (t :: ts) s) p =
      (handle t p).bind fun r =>
        if r.1.top.s = .invalid then some ⟨.error, r.1.values, r.2⟩
        else parseStream (streamOf ts s) r.1 := by
  have hfailure := failure_streamOf ts s h
  unfold streamOf at hfailure ⊢
  rw [List.foldr_cons, parseStream, hfailure]

theorem parseStream_taken (t : Token) (ts : List Token) (s : TokenStream) (p q : Pda)
    (h : failure s = none) (hhandle : handle t p = some (q, none)) (hvalid : q.top.s ≠ .invalid) :
    parseStream (streamOf (t :: ts) s) p = parseStream (streamOf ts s) q := by
  rw [parseStream_token t ts s p h, hhandle, Option.bind_some, if_neg hvalid]

theorem parseStream_ok_iff (s : TokenStream) (p : Pda) (values : List Entry)
    (e : Option LcfgError) (h : p.Nested) :
    parseStream s p = some ⟨.ok, values, e⟩ ↔
      ∃ ts entries, s = streamOf ts (.done e) ∧ Demands p ts entries ∧
        values = p.values ++ entries := by
  induction s generalizing p with
  | done error =>
    constructor
    · intro hparse
      have hok := Option.some.inj hparse
      simp only [Pda.finish, Parsed.mk.injEq] at hok
      obtain ⟨hstatus, rfl, rfl⟩ := hok
      have hcomplete : p.complete = true := by
        by_contra hne
        simp [hne] at hstatus
      exact ⟨[], [], rfl, (demands_nil p [] h).mpr ⟨hcomplete, rfl⟩, by simp⟩
    · intro hdoc
      obtain ⟨ts, entries, heq, hdemands, rfl⟩ := hdoc
      cases ts with
      | nil =>
        obtain ⟨hcomplete, rfl⟩ := (demands_nil p entries h).mp hdemands
        obtain rfl : error = e := by simpa [streamOf] using heq
        simp [parseStream, Pda.finish, hcomplete]
      | cons t ts => cases heq
  | failed error =>
    constructor
    · intro hparse
      cases hparse
    · intro hdoc
      obtain ⟨ts, entries, heq, -⟩ := hdoc
      cases ts <;> cases heq
  | token t next ih =>
    constructor
    · intro hparse
      rw [parseStream] at hparse
      cases hfailure : failure next with
      | some error => simp [hfailure] at hparse
      | none =>
        simp only [hfailure, Option.bind_eq_some_iff] at hparse
        obtain ⟨⟨p', raised⟩, hhandle, hrest⟩ := hparse
        rcases handle_proceeds t p h p' raised hhandle with ⟨rfl, hnested⟩ | ⟨hinvalid, -⟩
        · simp only [if_neg (Nested.valid hnested)] at hrest
          obtain ⟨ts, back, rfl, hdemands, rfl⟩ := (ih p' hnested).mp hrest
          obtain ⟨front, hfront⟩ := handle_values t p p' none hhandle
          refine ⟨t :: ts, front ++ back, rfl, ?_, by rw [hfront, List.append_assoc]⟩
          exact (demands_cons p t ts _ h).mpr ⟨p', front, back, hhandle, hfront, hdemands, rfl⟩
        · simp [hinvalid] at hrest
    · intro hdoc
      obtain ⟨ts, entries, heq, hdemands, rfl⟩ := hdoc
      cases ts with
      | nil => cases heq
      | cons t' ts =>
        obtain ⟨rfl, rfl⟩ : t = t' ∧ next = streamOf ts (.done e) := by simpa [streamOf] using heq
        obtain ⟨p', front, back, hhandle, hfront, hback, rfl⟩ :=
          (demands_cons p t ts entries h).mp hdemands
        rcases handle_proceeds t p h p' none hhandle with ⟨-, hnested⟩ | ⟨-, expected, hraised⟩
        · have htaken := parseStream_taken t ts (.done e) p p' rfl hhandle (Nested.valid hnested)
          rw [streamOf, List.foldr_cons] at htaken
          rw [streamOf, htaken]
          exact (ih p' hnested).mpr ⟨ts, back, rfl, hback, by rw [hfront, List.append_assoc]⟩
        · cases hraised

theorem demands_new (ts : List Token) (entries : List Entry) :
    Demands .new ts entries ↔ Document ts entries := by
  constructor
  · intro h
    obtain ⟨us, vs, after, front, back, rfl, ⟨settings, hspell, heval⟩, ⟨rfl, rfl⟩, rfl⟩ := h
    rw [List.append_nil, List.append_nil]
    exact ⟨settings, after, hspell, heval⟩
  · intro h
    obtain ⟨settings, after, hspell, heval⟩ := h
    exact ⟨ts, [], after, entries, [], by simp, ⟨settings, hspell, heval⟩, ⟨rfl, rfl⟩, by simp⟩

/-- A text is parsed to some values exactly when the lexical grammar reads it to its end
and the tokens are a document with these values. -/
theorem parse_iff (text : List UInt8) (values : List Entry) (e : Option LcfgError) :
    parseText text = some ⟨.ok, values, e⟩ ↔
      ∃ ts, Lexes [] ⟨1, 1⟩ none text (streamOf ts (.done e)) ∧ Document ts values := by
  rw [parseText, parseStream_ok_iff _ .new values e nested_new]
  constructor
  · intro h
    obtain ⟨ts, entries, hstream, hdemands, rfl⟩ := h
    exact ⟨ts, (lexes_iff [] ⟨1, 1⟩ none text _).mpr hstream, (demands_new ts _).mp hdemands⟩
  · intro h
    obtain ⟨ts, hlexes, hdoc⟩ := h
    exact ⟨ts, values, (lexes_iff [] ⟨1, 1⟩ none text _).mp hlexes,
      (demands_new ts values).mpr hdoc,
      rfl⟩

/-- The parser accepts a file with these values exactly when the scanner comes to the end of
its text and the tokens are a document with these values. -/
theorem accepted_iff (reads : List ReadResult) (text : List UInt8)
    (h : delivered reads = some text) (values : List Entry) (e : Option LcfgError) :
    parserRun (.inr reads) = some ⟨.ok, values, e⟩ ↔
      ∃ ts, Lexes [] ⟨1, 1⟩ none text (streamOf ts (.done e)) ∧ Document ts values := by
  rw [parserRun_delivered reads text h, parse_iff]

/-- a =["x"], a list with a string in it. -/
def listedText : List UInt8 := [0x61, 0x20, 0x3D, 0x5B, 0x22, 0x78, 0x22, 0x5D, 0x0A]

theorem accepted_iff_listed :
    parserRun (.inr [.data listedText (by decide)]) =
        some ⟨.ok, [([0x61, 0x2E, 0x30], [0x78])], none⟩ ↔
      ∃ ts, Lexes [] ⟨1, 1⟩ none listedText (streamOf ts (.done none)) ∧
        Document ts [([0x61, 0x2E, 0x30], [0x78])] :=
  accepted_iff [.data listedText (by decide)] listedText rfl [([0x61, 0x2E, 0x30], [0x78])] none

end OmapBootUtils.ConfigGrammar
