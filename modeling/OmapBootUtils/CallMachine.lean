import Mathlib.Data.List.Infix

/-!
Components that are called from outside. A call changes the state and leaves events;
what one call does to an invariant or to a part of the state is carried over to
sequences of calls.
-/
namespace OmapBootUtils.CallMachine

theorem forall_prefix_cons {α : Type*} (head : α) (l : List α) (p : List α → Prop) :
    (∀ before, before <+: head :: l → p before) ↔
      p [] ∧ ∀ before, before <+: l → p (head :: before) := by
  constructor
  · intro h
    exact ⟨h [] List.nil_prefix,
      fun before hbefore => h _ (List.cons_prefix_cons.mpr ⟨rfl, hbefore⟩)⟩
  · rintro ⟨hnil, hcons⟩ before hbefore
    cases before with
    | nil => exact hnil
    | cons first before =>
      obtain ⟨rfl, hrest⟩ := List.cons_prefix_cons.mp hbefore
      exact hcons before hrest

structure Machine (σ κ ε : Type*) where
  next : σ → κ → σ
  events : σ → κ → List ε

namespace Machine
variable {σ κ ε β : Type*} (m : Machine σ κ ε)

/-- The state after a sequence of calls. -/
def run : σ → List κ → σ
  | s, [] => s
  | s, c :: cs => run (m.next s c) cs

/-- The events of a sequence of calls. -/
def trace : σ → List κ → List ε
  | _, [] => []
  | s, c :: cs => m.events s c ++ trace (m.next s c) cs

/-- What the last call wrote that wrote anything. -/
def lastWrite (writes : σ → κ → Option β) : σ → List κ → Option β
  | _, [] => none
  | s, c :: cs => (lastWrite writes (m.next s c) cs).or (writes s c)

/-- A part of the state that calls overwrite or leave alone. -/
theorem read_run (read : σ → β) (writes : σ → κ → Option β)
    (hstep : ∀ s c, read (m.next s c) = (writes s c).getD (read s)) (s : σ) (cs : List κ) :
    read (m.run s cs) = (m.lastWrite writes s cs).getD (read s) := by
  induction cs generalizing s with
  | nil => rfl
  | cons c cs ih =>
    rw [run, ih (m.next s c), hstep s c, lastWrite]
    cases m.lastWrite writes (m.next s c) cs <;> rfl

/-- An invariant that good events keep, and without which a property of the states that
it gives is lost: the property holds in every state of a run exactly if all events of the
run are good. -/
theorem holds_throughout_iff (inv p : σ → Prop) (good : ε → Prop) (hinv : ∀ s, inv s → p s)
    (hkeep : ∀ s c, inv s → (∀ e ∈ m.events s c, good e) → inv (m.next s c))
    (hlose : ∀ s c, inv s → p (m.next s c) → ∀ e ∈ m.events s c, good e)
    (s : σ) (h : inv s) (cs : List κ) :
    (∀ before, before <+: cs → p (m.run s before)) ↔ ∀ e ∈ m.trace s cs, good e := by
  induction cs generalizing s with
  | nil =>
    constructor
    · intro _ e he
      simp [trace] at he
    · intro _ before hbefore
      rw [List.prefix_nil.mp hbefore]
      exact hinv s h
  | cons c cs ih =>
    rw [forall_prefix_cons, trace]
    constructor
    · rintro ⟨_, hrest⟩ e he
      have hnow : ∀ e ∈ m.events s c, good e := hlose s c h (hrest [] List.nil_prefix)
      cases List.mem_append.mp he with
      | inl hfirst => exact hnow e hfirst
      | inr hlater => exact (ih (m.next s c) (hkeep s c h hnow)).mp hrest e hlater
    · intro hgood
      have hnext : inv (m.next s c) :=
        hkeep s c h fun e he => hgood e (List.mem_append_left _ he)
      exact ⟨hinv s h, (ih (m.next s c) hnext).mpr
        fun e he => hgood e (List.mem_append_right _ he)⟩

/-- Something holds of every call of a sequence, in the state it is made in. -/
def Along (q : σ → κ → Prop) : σ → List κ → Prop
  | _, [] => True
  | s, c :: cs => q s c ∧ Along q (m.next s c) cs

/-- What holds of a call in any state holds along the sequence. -/
theorem along_of_forall (q : σ → κ → Prop) (s : σ) (cs : List κ) (h : ∀ c ∈ cs, ∀ s, q s c) :
    m.Along q s cs := by
  induction cs generalizing s with
  | nil => trivial
  | cons c cs ih =>
    rw [List.forall_mem_cons] at h
    exact ⟨h.1 s, ih (m.next s c) h.2⟩

/-- A discipline for calls, with phases that it goes through as long as it is kept. If every
call that keeps it is good and every call that breaks it is not, then all calls of a sequence
are good exactly if the sequence keeps the discipline. -/
theorem along_iff_disciplined {φ : Type*} (phase : φ → κ → Option φ) (inv : φ → σ → Prop)
    (env good : σ → κ → Prop)
    (hkeep : ∀ p s c p', inv p s → env s c → phase p c = some p' → good s c ∧ inv p' (m.next s c))
    (hlose : ∀ p s c, inv p s → env s c → phase p c = none → ¬ good s c)
    (p : φ) (s : σ) (h : inv p s) (cs : List κ) (henv : m.Along env s cs) :
    m.Along good s cs ↔ (cs.foldlM phase p).isSome := by
  induction cs generalizing p s with
  | nil => simp [Along]
  | cons c cs ih =>
    obtain ⟨hfirst, hrest⟩ := henv
    rw [Along, List.foldlM_cons]
    cases hphase : phase p c with
    | none =>
      have hbad := hlose p s c h hfirst hphase
      simp [hbad]
    | some p' =>
      obtain ⟨hgood, hinv⟩ := hkeep p s c p' h hfirst hphase
      have htail := ih p' (m.next s c) hinv hrest
      simp [hgood, htail]

end Machine

end OmapBootUtils.CallMachine
