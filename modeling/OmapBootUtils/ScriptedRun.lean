import Mathlib.Data.List.Basic

/-!
Runs of a program that calls its environment. A run records the calls in order
and how far the program got: blocked because no further outcome is scripted, in
behaviour the language leaves undefined, or returned. Every finite script gives
one prefix of an execution; a program that never returns is waiting on each.
-/
namespace OmapBootUtils.ScriptedRun

inductive Status (α : Type) where
  | waiting
  | undefined
  | done (a : α)
  deriving DecidableEq, Repr

structure Run (ε α : Type) where
  log : List ε
  status : Status α

variable {ε α β : Type}

namespace Run

def emit (e : ε) : Run ε Unit := ⟨[e], .done ()⟩

def block : Run ε α := ⟨[], .waiting⟩

def crash : Run ε α := ⟨[], .undefined⟩

/-- The run with earlier calls put before its own. -/
def after (earlier : List ε) (x : Run ε α) : Run ε α := ⟨earlier ++ x.log, x.status⟩

instance : Monad (Run ε) where
  pure a := ⟨[], .done a⟩
  bind x f := match x.status with
    | .waiting => ⟨x.log, .waiting⟩
    | .undefined => ⟨x.log, .undefined⟩
    | .done a => after x.log (f a)

@[simp] theorem after_log (l : List ε) (x : Run ε α) : (after l x).log = l ++ x.log := rfl

@[simp] theorem after_status (l : List ε) (x : Run ε α) : (after l x).status = x.status := rfl

@[simp] theorem after_nil (x : Run ε α) : after [] x = x := rfl

@[simp] theorem after_after (l m : List ε) (x : Run ε α) :
    after l (after m x) = after (l ++ m) x := by
  simp [after]

@[simp] theorem pure_log (a : α) : (pure a : Run ε α).log = [] := rfl

@[simp] theorem pure_status (a : α) : (pure a : Run ε α).status = .done a := rfl

@[simp] theorem block_log : (block : Run ε α).log = [] := rfl

@[simp] theorem block_status : (block : Run ε α).status = .waiting := rfl

@[simp] theorem crash_log : (crash : Run ε α).log = [] := rfl

@[simp] theorem crash_status : (crash : Run ε α).status = .undefined := rfl

@[simp] theorem pure_bind (a : α) (f : α → Run ε β) : (pure a >>= f) = f a := rfl

@[simp] theorem emit_bind (e : ε) (f : Unit → Run ε β) : (emit e >>= f) = after [e] (f ()) := rfl

@[simp] theorem block_bind (f : α → Run ε β) : ((block : Run ε α) >>= f) = block := rfl

@[simp] theorem crash_bind (f : α → Run ε β) : ((crash : Run ε α) >>= f) = crash := rfl

@[simp] theorem after_bind (l : List ε) (x : Run ε α) (f : α → Run ε β) :
    (after l x >>= f) = after l (x >>= f) := by
  cases hs : x.status <;> simp [bind, after, hs]

theorem bind_of_done (x : Run ε α) (f : α → Run ε β) (a : α) (h : x.status = .done a) :
    (x >>= f) = after x.log (f a) := by
  simp [bind, h]

/-- What does not return has nothing behind it. -/
theorem bind_stopped (x : Run ε α) (f : α → Run ε β) (h : ∀ a, x.status ≠ .done a) :
    ∃ y : Run ε β, (x >>= f) = after x.log y ∧ y.log = [] ∧ ∀ b, y.status ≠ .done b := by
  cases hs : x.status with
  | waiting => exact ⟨block, by simp [bind, hs, after], rfl, by simp⟩
  | undefined => exact ⟨crash, by simp [bind, hs, after], rfl, by simp⟩
  | done a => exact absurd hs (h a)

theorem log_prefix_bind (x : Run ε α) (f : α → Run ε β) : x.log <+: (x >>= f).log := by
  cases hs : x.status <;> simp [bind, hs]

/-- What follows a part of a run are calls of the rest. -/
theorem bind_log (x : Run ε α) (f : α → Run ε β) :
    ∃ later, (x >>= f).log = x.log ++ later ∧ ∀ c ∈ later, ∃ a, c ∈ (f a).log := by
  cases hs : x.status with
  | waiting => exact ⟨[], by simp [bind, hs], by simp⟩
  | undefined => exact ⟨[], by simp [bind, hs], by simp⟩
  | done a =>
    refine ⟨(f a).log, by simp [bind, hs], ?_⟩
    intro c hc
    exact ⟨a, hc⟩

/-- A composed run that returned splits where its first part returned. -/
theorem bind_done_iff (x : Run ε α) (f : α → Run ε β) (b : β) :
    (x >>= f).status = .done b ↔ ∃ a, x.status = .done a ∧ (f a).status = .done b := by
  cases hs : x.status <;> simp [bind, hs]

/-- A composed run crashes in its first part or in what follows it. -/
theorem bind_undefined_iff (x : Run ε α) (f : α → Run ε β) :
    (x >>= f).status = .undefined ↔
      x.status = .undefined ∨ ∃ a, x.status = .done a ∧ (f a).status = .undefined := by
  cases hs : x.status <;> simp [bind, hs]

/-- A way to end that is none of the first part is decided by what follows it. -/
theorem bind_ends_iff (p : Status β → Prop) (hwaiting : ¬ p .waiting) (x : Run ε α)
    (f : α → Run ε β) (hx : x.status ≠ .undefined) :
    p (x >>= f).status ↔ ∃ a, x.status = .done a ∧ p (f a).status := by
  cases hs : x.status with
  | waiting => simpa [bind, hs] using hwaiting
  | undefined => exact absurd hs hx
  | done a =>
    rw [bind_of_done x f a hs, after_status]
    simp

end Run

end OmapBootUtils.ScriptedRun
