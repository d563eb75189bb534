import Mathlib.Data.List.Basic

/-!
Stores into a memory, each under a key. When no address is written under two keys,
the memory after a run depends only on the order of the stores under each key.
-/
namespace OmapBootUtils.KeyedStores

variable {κ α β : Type*}

/-- What a store leaves at each address it writes. -/
structure Store (κ α β : Type*) where
  key : κ
  write : α → Option β

def Store.apply (u : Store κ α β) (s : α → β) : α → β := fun a => (u.write a).getD (s a)

def run : List (Store κ α β) → (α → β) → α → β
  | [], s => s
  | u :: us, s => run us (u.apply s)

/-- No address is written under two keys. -/
def Apart (us : List (Store κ α β)) : Prop :=
  ∀ u ∈ us, ∀ v ∈ us, ∀ a, u.write a ≠ none → v.write a ≠ none → u.key = v.key

theorem Store.apply_silent (u : Store κ α β) (s : α → β) (a : α) (h : u.write a = none) :
    u.apply s a = s a := by
  rw [Store.apply, h, Option.getD_none]

/-- The run at an address depends on what was there alone. -/
theorem run_congr (us : List (Store κ α β)) (s t : α → β) (a : α) (h : s a = t a) :
    run us s a = run us t a := by
  induction us generalizing s t with
  | nil => exact h
  | cons u us ih =>
    apply ih
    rw [Store.apply, Store.apply, h]

theorem run_append (us vs : List (Store κ α β)) (s : α → β) :
    run (us ++ vs) s = run vs (run us s) := by
  induction us generalizing s with
  | nil => rfl
  | cons u us ih => exact ih (u.apply s)

theorem run_silent (us : List (Store κ α β)) (s : α → β) (a : α)
    (h : ∀ u ∈ us, u.write a = none) : run us s a = s a := by
  induction us generalizing s with
  | nil => rfl
  | cons u us ih =>
    have hrest := ih (u.apply s) fun v hv => h v (List.mem_cons_of_mem _ hv)
    rw [run, hrest, u.apply_silent s a (h u (List.mem_cons_self ..))]

/-- The last store at an address stays there. -/
theorem run_last (before after : List (Store κ α β)) (u : Store κ α β) (s : α → β) (a : α) (b : β)
    (hwrite : u.write a = some b) (hafter : ∀ v ∈ after, v.write a = none) :
    run (before ++ u :: after) s a = b := by
  rw [run_append, run, run_silent after _ a hafter, Store.apply, hwrite, Option.getD_some]

/-- Stores that leave the address alone may be left out. -/
theorem run_filter (p : Store κ α β → Bool) (us : List (Store κ α β)) (s : α → β) (a : α)
    (h : ∀ u ∈ us, p u = false → u.write a = none) : run (us.filter p) s a = run us s a := by
  induction us generalizing s with
  | nil => rfl
  | cons u us ih =>
    have hrest := fun s => ih s fun v hv => h v (List.mem_cons_of_mem _ hv)
    cases hp : p u with
    | true =>
      rw [List.filter_cons_of_pos hp]
      exact hrest (u.apply s)
    | false =>
      have hsilent := u.apply_silent s a (h u (List.mem_cons_self ..) hp)
      rw [List.filter_cons_of_neg (by simp [hp]), hrest s]
      exact run_congr us s (u.apply s) a hsilent.symm

variable [DecidableEq κ]

/-- Runs with the same stores in the same order under each key end alike. -/
theorem run_reordered (us vs : List (Store κ α β)) (hus : Apart us)
    (h : ∀ k, vs.filter (fun v => v.key = k) = us.filter fun u => u.key = k) (s : α → β) :
    run vs s = run us s := by
  have hmem : ∀ v ∈ vs, v ∈ us := by
    intro v hv
    have hkey : v ∈ vs.filter fun w => w.key = v.key :=
      List.mem_filter.mpr ⟨hv, decide_eq_true rfl⟩
    rw [h v.key] at hkey
    exact List.mem_of_mem_filter hkey
  funext a
  by_cases hwritten : ∃ u ∈ us, u.write a ≠ none
  · obtain ⟨u, hu, hwrite⟩ := hwritten
    have hother : ∀ w ∈ us, decide (w.key = u.key) = false → w.write a = none := by
      intro w hw hkey
      by_contra hne
      exact of_decide_eq_false hkey (hus w hw u hu a hne hwrite)
    rw [← run_filter _ vs s a fun v hv => hother v (hmem v hv), h u.key,
      run_filter _ us s a hother]
  · have hsilent : ∀ u ∈ us, u.write a = none := by
      intro u hu
      by_contra hne
      exact hwritten ⟨u, hu, hne⟩
    rw [run_silent us s a hsilent, run_silent vs s a fun v hv => hsilent v (hmem v hv)]

end OmapBootUtils.KeyedStores
