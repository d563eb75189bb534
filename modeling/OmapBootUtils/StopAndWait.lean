import Mathlib.Data.List.Basic
import Mathlib.Data.Nat.Basic

/-!
Stop-and-wait transmission with labels. A sender repeats each item under one
label until it is acknowledged; a receiver drops a frame whose label is that of
the frame just before it. When consecutive labels differ, the receiver gets
each item exactly once, whatever the number of repetitions.
-/
namespace OmapBootUtils.StopAndWait

variable {S A : Type*}

/-- An item together with the number of times it was sent again. -/
structure Sent (A : Type*) where
  item : A
  resent : ℕ

/-- The frames of a transmission, the first item carrying label number `k`. -/
def frames (label : ℕ → S) : ℕ → List (Sent A) → List (S × A)
  | _, [] => []
  | k, x :: rest => List.replicate (x.resent + 1) (label k, x.item) ++ frames label (k + 1) rest

/-- A frame carries a label and an item of the transmission. -/
theorem mem_frames (label : ℕ → S) (sent : List (Sent A)) (k : ℕ) (p : S × A)
    (hp : p ∈ frames label k sent) : (∃ j, p.1 = label j) ∧ ∃ x ∈ sent, p.2 = x.item := by
  induction sent generalizing k with
  | nil => simp [frames] at hp
  | cons x rest ih =>
    rcases List.mem_append.mp hp with hp | hp
    · rw [List.eq_of_mem_replicate hp]
      exact ⟨⟨k, rfl⟩, x, by simp, rfl⟩
    · obtain ⟨hlabel, y, hy, hitem⟩ := ih (k + 1) hp
      exact ⟨hlabel, y, by simp [hy], hitem⟩

/-- The items a receiver keeps, given the label of the frame just before. -/
def keep [DecidableEq S] : Option S → List (S × A) → List A
  | _, [] => []
  | last, (s, a) :: rest =>
      if last = some s then keep (some s) rest else a :: keep (some s) rest

variable [DecidableEq S]

theorem keep_repeated (s : S) (a : A) (n : ℕ) (rest : List (S × A)) :
    keep (some s) (List.replicate n (s, a) ++ rest) = keep (some s) rest := by
  induction n with
  | zero => rfl
  | succ n ih => simp [List.replicate_succ, keep, ih]

/-- Each item is kept once when its label differs from the one before. -/
theorem keep_frames (label : ℕ → S) (hlabel : ∀ k, label k ≠ label (k + 1))
    (sent : List (Sent A)) (k : ℕ) (last : Option S) (hlast : last ≠ some (label k)) :
    keep last (frames label k sent) = sent.map Sent.item := by
  induction sent generalizing k last with
  | nil => rfl
  | cons x rest ih =>
    have hnext : some (label k) ≠ some (label (k + 1)) := by
      simpa using hlabel k
    simp only [frames, List.replicate_succ, List.cons_append, keep, hlast, if_false,
      keep_repeated, List.map_cons, ih (k + 1) (some (label k)) hnext]

theorem mod_succ_ne (n k : ℕ) (hn : 2 ≤ n) : k % n ≠ (k + 1) % n := by
  intro h
  have hlt := Nat.mod_lt k (show 0 < n by omega)
  by_cases hwrap : k % n + 1 = n
  · have hz : (k + 1) % n = 0 := by
      rw [Nat.add_mod, Nat.mod_eq_of_lt (show 1 < n by omega), hwrap, Nat.mod_self]
    omega
  · have hs : (k + 1) % n = k % n + 1 := by
      rw [Nat.add_mod, Nat.mod_eq_of_lt (show 1 < n by omega)]
      exact Nat.mod_eq_of_lt (by omega)
    omega

end OmapBootUtils.StopAndWait
