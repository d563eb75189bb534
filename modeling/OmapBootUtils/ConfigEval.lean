import OmapBootUtils.ConfigKeys

/-!
The run of the parser over a document. Whatever follows it, the tokens of a part
of a document leave the automaton with the entries of that part; where they have
none, a number of a list is stored off the path.
-/
namespace OmapBootUtils.ConfigEval

open ConfigHandler LcfgScanner ScannedText LcfgParser ConfigGrammar GrowingString JoinedWords
  LexicalGrammar ConfigKeys

/-! ### Parts of a document -/

/-- The tokens leave the entries of the value, after an equals sign and in a list. -/
def RunsValue (v : Value) (ts : List Token) : Prop :=
  ∀ (s : TokenStream) (path : List UInt8) (values : List Entry), failure s = none →
    (∀ g below, g.s ≠ .invalid →
      parseStream (streamOf ts s) ⟨⟨.expValue, 0⟩, g :: below, path, values⟩ =
        (v.eval path).bind fun r => parseStream s ⟨g, below, r.1, values ++ r.2⟩) ∧
    ∀ n below,
      parseStream (streamOf ts s) ⟨⟨.inList, n⟩, below, path, values⟩ =
        (pushNumber path n).bind fun inside => (v.eval inside).bind fun r =>
          parseStream s ⟨⟨.inList, n + 1⟩, below, r.1, values ++ r.2⟩

def RunsItems (items : Items) (ts : List Token) : Prop :=
  ∀ (s : TokenStream) (n : ℕ) (below : List StateElement) (path : List UInt8)
    (values : List Entry), failure s = none →
    parseStream (streamOf ts s) ⟨⟨.inList, n⟩, below, path, values⟩ =
      (items.eval n path).bind fun r =>
        parseStream s ⟨⟨.inList, n + items.length⟩, below, r.1, values ++ r.2⟩

def RunsSettings (settings : Settings) (ts : List Token) : Prop :=
  ∀ (s : TokenStream) (f : StateElement) (below : List StateElement) (path : List UInt8)
    (values : List Entry), failure s = none → f.s = .topLevel ∨ f.s = .inMap →
    parseStream (streamOf ts s) ⟨f, below, path, values⟩ =
      (settings.eval path).bind fun r => parseStream s ⟨f, below, r.1, values ++ r.2⟩

theorem runs_string (t : Token) (h : t.type = .string) : RunsValue (.string t.string) [t] := by
  intro s path values hs
  constructor
  · intro g below hg
    rw [parseStream_taken t [] s _ ⟨g, below, pop dot path, values ++ [(cText path, t.string)]⟩ hs
      (by simp [handle, handleValue, h, accept, Pda.addValue, Pda.leave]) hg]
    rfl
  · intro n below
    cases hpush : pushNumber path n with
    | none =>
      have hnone : handle t ⟨⟨.inList, n⟩, below, path, values⟩ = none := by
        simp [handle, handleItem, h, accept, Pda.enterItem, hpush]
      rw [parseStream_token t [] s _ hs, hnone]
      rfl
    | some inside =>
      rw [parseStream_taken t [] s _ ⟨⟨.inList, n + 1⟩, below, pop dot inside,
        values ++ [(cText inside, t.string)]⟩ hs
        (by simp [handle, handleItem, h, accept, Pda.enterItem, hpush, Pda.addValue]) (by simp)]
      rfl

/-- The bracket that closes a list or a map. -/
theorem parseStream_close (c : Token) (s : TokenStream) (f g : StateElement)
    (below : List StateElement) (path : List UInt8) (values : List Entry) (h : failure s = none)
    (hclose : (f.s = .inList ∧ c.type = .sbracketClose) ∨ (f.s = .inMap ∧ c.type = .braceClose))
    (hg : g.s ≠ .invalid) :
    parseStream (streamOf [c] s) ⟨f, g :: below, path, values⟩ =
      parseStream s ⟨g, below, pop dot path, values⟩ := by
  refine parseStream_taken c [] s _ ⟨g, below, pop dot path, values⟩ h ?_ hg
  rcases hclose with ⟨hf, hc⟩ | ⟨hf, hc⟩
  · simp [handle, handleItem, hf, hc, accept, Pda.leave]
  · simp [handle, handleSetting, hf, hc, accept, Pda.leave]

theorem runs_list (o c : Token) (items : Items) (ts : List Token) (ho : o.type = .sbracketOpen)
    (hc : c.type = .sbracketClose) (h : RunsItems items ts) :
    RunsValue (.list items) (o :: (ts ++ [c])) := by
  intro s path values hs
  have hclose : failure (streamOf [c] s) = none := rfl
  -- the items and the bracket, wherever the list stands
  have hinner : ∀ g below path, g.s ≠ .invalid →
      parseStream (streamOf (ts ++ [c]) s) ⟨⟨.inList, 0⟩, g :: below, path, values⟩ =
        ((Value.list items).eval path).bind fun r =>
          parseStream s ⟨g, below, r.1, values ++ r.2⟩ := by
    intro g below path hg
    rw [streamOf_append, h (streamOf [c] s) 0 (g :: below) path values hclose, Value.eval,
      Option.bind_map]
    congr 1
    funext r
    exact parseStream_close c s _ g below r.1 _ hs (Or.inl ⟨rfl, hc⟩) hg
  constructor
  · intro g below hg
    rw [parseStream_taken o (ts ++ [c]) s _ ⟨⟨.inList, 0⟩, g :: below, path, values⟩ hs
      (by simp [handle, handleValue, ho, accept, Pda.setState]) (by simp)]
    exact hinner g below path hg
  · intro n below
    cases hpush : pushNumber path n with
    | none =>
      have hnone : handle o ⟨⟨.inList, n⟩, below, path, values⟩ = none := by
        simp [handle, handleItem, ho, accept, Pda.enterItem, hpush]
      rw [parseStream_token o (ts ++ [c]) s _ hs, hnone]
      rfl
    | some inside =>
      rw [parseStream_taken o (ts ++ [c]) s _
        ⟨⟨.inList, 0⟩, ⟨.inList, n + 1⟩ :: below, inside, values⟩ hs
        (by simp [handle, handleItem, ho, accept, Pda.enterItem, hpush, Pda.pushState]) (by simp)]
      exact hinner ⟨.inList, n + 1⟩ below inside (by simp)

theorem runs_map (o c : Token) (settings : Settings) (ts : List Token) (ho : o.type = .braceOpen)
    (hc : c.type = .braceClose) (h : RunsSettings settings ts) :
    RunsValue (.map settings) (o :: (ts ++ [c])) := by
  intro s path values hs
  have hclose : failure (streamOf [c] s) = none := rfl
  have hinner : ∀ g below path, g.s ≠ .invalid →
      parseStream (streamOf (ts ++ [c]) s) ⟨⟨.inMap, 0⟩, g :: below, path, values⟩ =
        ((Value.map settings).eval path).bind fun r =>
          parseStream s ⟨g, below, r.1, values ++ r.2⟩ := by
    intro g below path hg
    rw [streamOf_append, h (streamOf [c] s) ⟨.inMap, 0⟩ (g :: below) path values hclose (Or.inr rfl),
      Value.eval, Option.bind_map]
    congr 1
    funext r
    exact parseStream_close c s _ g below r.1 _ hs (Or.inr ⟨rfl, hc⟩) hg
  constructor
  · intro g below hg
    rw [parseStream_taken o (ts ++ [c]) s _ ⟨⟨.inMap, 0⟩, g :: below, path, values⟩ hs
      (by simp [handle, handleValue, ho, accept, Pda.setState]) (by simp)]
    exact hinner g below path hg
  · intro n below
    cases hpush : pushNumber path n with
    | none =>
      have hnone : handle o ⟨⟨.inList, n⟩, below, path, values⟩ = none := by
        simp [handle, handleItem, ho, accept, Pda.enterItem, hpush]
      rw [parseStream_token o (ts ++ [c]) s _ hs, hnone]
      rfl
    | some inside =>
      rw [parseStream_taken o (ts ++ [c]) s _
        ⟨⟨.inMap, 0⟩, ⟨.inList, n + 1⟩ :: below, inside, values⟩ hs
        (by simp [handle, handleItem, ho, accept, Pda.enterItem, hpush, Pda.pushState]) (by simp)]
      exact hinner ⟨.inList, n + 1⟩ below inside (by simp)

theorem runs_items_cons (v : Value) (items : Items) (us vs : List Token) (hv : RunsValue v us)
    (h : RunsItems items vs) : RunsItems (.cons v items) (us ++ vs) := by
  intro s n below path values hs
  have hrest := failure_streamOf vs s hs
  rw [streamOf_append, (hv (streamOf vs s) path values hrest).2 n below, Items.eval]
  cases hpush : pushNumber path n with
  | none => rfl
  | some inside =>
    simp only [Option.bind_eq_bind, Option.bind_some]
    cases hfirst : v.eval inside with
    | none => rfl
    | some r =>
      simp only [Option.bind_some, h s (n + 1) below r.1 (values ++ r.2) hs]
      cases hsecond : items.eval (n + 1) r.1 with
      | none => rfl
      | some q =>
        have hcount : n + 1 + items.length = n + (Items.cons v items).length := by
          rw [Items.length]
          omega
        simp [hcount]

theorem runs_settings_cons (t e : Token) (v : Value) (settings : Settings) (us vs : List Token)
    (ht : t.type = .identifier) (he : e.type = .equals) (hv : RunsValue v us)
    (h : RunsSettings settings vs) :
    RunsSettings (.cons (cText t.string) v settings) (t :: e :: (us ++ vs)) := by
  intro s f below path values hs hf
  have hvalid : f.s ≠ .invalid := by rcases hf with hf | hf <;> simp [hf]
  have hrest := failure_streamOf vs s hs
  rw [parseStream_taken t (e :: (us ++ vs)) s _
      ⟨⟨.expEquals, 0⟩, f :: below, push dot path (cText t.string), values⟩ hs
      (by rcases hf with hf | hf <;>
        simp [handle, handleSetting, hf, ht, accept, Pda.pushState]) (by simp),
    parseStream_taken e (us ++ vs) s _
      ⟨⟨.expValue, 0⟩, f :: below, push dot path (cText t.string), values⟩ hs
      (by simp [handle, handleEquals, he, accept, Pda.setState]) (by simp),
    streamOf_append, (hv (streamOf vs s) _ values hrest).1 f below hvalid, Settings.eval]
  cases hfirst : v.eval (push dot path (cText t.string)) with
  | none => rfl
  | some r =>
    simp only [Option.bind_eq_bind, Option.bind_some, h s f below r.1 (values ++ r.2) hs hf]
    cases hsecond : settings.eval r.1 with
    | none => rfl
    | some q => simp

theorem runs_items_comma (t : Token) (items : Items) (ts : List Token) (ht : t.type = .comma)
    (h : RunsItems items ts) : RunsItems items (t :: ts) := by
  intro s n below path values hs
  rw [parseStream_taken t ts s _ ⟨⟨.inList, n⟩, below, path, values⟩ hs
    (by simp [handle, handleItem, ht, accept]) (by simp)]
  exact h s n below path values hs

theorem runs_settings (settings : Settings) (ts : List Token) (h : SpellsSettings settings ts) :
    RunsSettings settings ts := by
  refine @SpellsSettings.rec (fun v ts _ => RunsValue v ts) (fun items ts _ => RunsItems items ts)
    (fun settings ts _ => RunsSettings settings ts) ?string ?list ?map ?nil ?comma ?cons ?none ?some
    settings ts h
  case string => exact fun t h => runs_string t h
  case list => exact fun o c items ts ho hc _ ih => runs_list o c items ts ho hc ih
  case map => exact fun o c settings ts ho hc _ ih => runs_map o c settings ts ho hc ih
  case nil =>
    intro s n below path values hs
    simp [Items.eval, Items.length, streamOf]
  case comma => exact fun t items ts ht _ ih => runs_items_comma t items ts ht ih
  case cons => exact fun v items us vs _ _ hv ih => runs_items_cons v items us vs hv ih
  case none =>
    intro s f below path values hs hf
    simp [Settings.eval, streamOf]
  case some =>
    exact fun t e v settings us vs ht he _ _ hv ih =>
      runs_settings_cons t e v settings us vs ht he hv ih

/-- The parser gives a document the entries the grammar gives it, and where the grammar
gives none, it stores a list number off the path. -/
theorem parse_document (text : List UInt8) (ts : List Token) (settings : Settings)
    (e : Option LcfgError) (hlexes : Lexes [] ⟨1, 1⟩ none text (streamOf ts (.done e)))
    (hspell : SpellsSettings settings ts) :
    parseText text = (settings.eval []).map fun r => ⟨.ok, r.2, e⟩ := by
  rw [parseText, (lexes_iff [] ⟨1, 1⟩ none text _).mp hlexes]
  have hrun := runs_settings settings ts hspell (.done e) ⟨.topLevel, 0⟩ [] [] [] rfl (Or.inl rfl)
  rw [Pda.new, hrun, Option.map_eq_bind]
  rfl

end OmapBootUtils.ConfigEval
