import Mathlib.Algebra.BigOperators.Group.List.Basic
import Mathlib.Algebra.GroupWithZero.Nat
import Mathlib.Data.Stream.Init

/-!
Loops driven by the outcomes of their calls, of which there is an endless supply.
A pass returns, goes on in the next state, or does neither; the loop ends exactly
if passes that go on lead to a state where it stops, or to a pass that returns.
Loops that read a file go on as far as the reads deliver.
-/
namespace OmapBootUtils.DrivenLoop

variable {ι σ : Type}

/-- `ends l s` says that the loop ends from `s` on the outcomes `l`. Outcomes that do
not fit the state do not occur. -/
structure Driven (ends : List ι → σ → Prop) (fits : σ → ι → Prop) (stops : σ → Prop)
    (goes returns : ι → Prop) (next : σ → ι → σ) : Prop where
  stopped : ∀ l s, stops s → ends l s
  starved : ∀ s, ¬ stops s → ¬ ends [] s
  pass : ∀ x l s, ¬ stops s → fits s x →
    (ends (x :: l) s ↔ returns x ∨ goes x ∧ ends l (next s x))

/-- The state after `n` passes. -/
def stateAfter (next : σ → ι → σ) (s : σ) (xs : Stream' ι) (n : ℕ) : σ :=
  (xs.take n).foldl next s

@[simp] theorem stateAfter_zero (next : σ → ι → σ) (s : σ) (xs : Stream' ι) :
    stateAfter next s xs 0 = s := rfl

theorem stateAfter_succ (next : σ → ι → σ) (s : σ) (xs : Stream' ι) (n : ℕ) :
    stateAfter next s xs (n + 1) = stateAfter next (next s xs.head) xs.tail n := rfl

section Driven

variable {ends : List ι → σ → Prop} {fits : σ → ι → Prop} {stops : σ → Prop}
  {goes returns : ι → Prop} {next : σ → ι → σ}

theorem Driven.of_ends (h : Driven ends fits stops goes returns next) (xs : Stream' ι) (s : σ)
    (hfits : ∀ n, fits (stateAfter next s xs n) (xs.get n)) (m : ℕ) (hends : ends (xs.take m) s) :
    ∃ n, (∀ i < n, goes (xs.get i)) ∧ (stops (stateAfter next s xs n) ∨ returns (xs.get n)) := by
  induction m generalizing xs s with
  | zero =>
    by_contra hnone
    refine h.starved s (fun hstop => hnone ⟨0, by simp, Or.inl hstop⟩) hends
  | succ m ih =>
    by_cases hstop : stops s
    · exact ⟨0, by simp, Or.inl hstop⟩
    · rw [Stream'.take_succ, h.pass xs.head _ s hstop (hfits 0)] at hends
      rcases hends with hret | ⟨hgoes, hrest⟩
      · exact ⟨0, by simp, Or.inr hret⟩
      · obtain ⟨n, hall, hend⟩ := ih xs.tail (next s xs.head) (fun n => hfits (n + 1)) hrest
        refine ⟨n + 1, ?_, hend⟩
        rw [Nat.forall_lt_succ_left]
        exact ⟨hgoes, hall⟩

theorem Driven.ends_of (h : Driven ends fits stops goes returns next) (xs : Stream' ι) (s : σ)
    (hfits : ∀ n, fits (stateAfter next s xs n) (xs.get n)) (n : ℕ)
    (hall : ∀ i < n, goes (xs.get i))
    (hend : stops (stateAfter next s xs n) ∨ returns (xs.get n)) : ends (xs.take (n + 1)) s := by
  induction n generalizing xs s with
  | zero =>
    by_cases hstop : stops s
    · exact h.stopped _ s hstop
    · rw [Stream'.take_succ, h.pass xs.head _ s hstop (hfits 0)]
      exact Or.inl (hend.resolve_left hstop)
  | succ n ih =>
    by_cases hstop : stops s
    · exact h.stopped _ s hstop
    · rw [Nat.forall_lt_succ_left] at hall
      rw [Stream'.take_succ, h.pass xs.head _ s hstop (hfits 0)]
      exact Or.inr ⟨hall.1, ih xs.tail (next s xs.head) (fun n => hfits (n + 1)) hall.2 hend⟩

/-- The loop ends on some part of the outcomes exactly if it comes to its end. -/
theorem Driven.ends_iff (h : Driven ends fits stops goes returns next) (xs : Stream' ι) (s : σ)
    (hfits : ∀ n, fits (stateAfter next s xs n) (xs.get n)) :
    (∃ m, ends (xs.take m) s) ↔
      ∃ n, (∀ i < n, goes (xs.get i)) ∧
        (stops (stateAfter next s xs n) ∨ returns (xs.get n)) :=
  ⟨fun ⟨m, hends⟩ => h.of_ends xs s hfits m hends,
    fun ⟨n, hall, hend⟩ => ⟨n + 1, h.ends_of xs s hfits n hall hend⟩⟩

end Driven

/-! ### Reads -/

/-- What the first `n` reads offer, each of them at most `cap`. -/
def offered (cap : ℕ) (reads : Stream' (Option ℕ)) (n : ℕ) : ℕ :=
  ((reads.take n).map fun read => min (read.getD 0) cap).sum

/-- What they deliver of `limit` bytes. -/
def delivered (cap limit : ℕ) (reads : Stream' (Option ℕ)) (n : ℕ) : ℕ :=
  min (offered cap reads n) limit

@[simp] theorem delivered_zero (cap limit : ℕ) (reads : Stream' (Option ℕ)) :
    delivered cap limit reads 0 = 0 := Nat.zero_min limit

/-- A first read, and what the others deliver of the rest. -/
theorem delivered_succ (cap limit : ℕ) (reads : Stream' (Option ℕ)) (n : ℕ) :
    delivered cap limit reads (n + 1) = min (min (reads.head.getD 0) cap) limit +
      delivered cap (limit - min (min (reads.head.getD 0) cap) limit) reads.tail n := by
  simp only [delivered, offered, Stream'.take_succ, List.map_cons, List.sum_cons]
  omega

end OmapBootUtils.DrivenLoop
