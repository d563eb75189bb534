import OmapBootUtils.ScriptedRun

/-!
Runs that acquire a resource and have to give it back. A run is judged where it
ends, by returning or in undefined behaviour; one that waits is not judged. The
rules follow the shape of a program: calls made first, a part run before the
rest, and the one acquisition after which everything has to release.
-/
namespace OmapBootUtils.ReleasedRuns

open ScriptedRun

variable {ε α β : Type}

/-- No call of the run satisfies `p`. -/
def Avoids (p : ε → Prop) (x : Run ε α) : Prop := ∀ c ∈ x.log, ¬ p c

/-- Once the run has ended it has made a releasing call. -/
def Releases (release : ε → Prop) (x : Run ε α) : Prop :=
  x.status ≠ .waiting → ∃ c ∈ x.log, release c

/-- Every acquisition of a run that has ended is followed by a release. -/
def HandsBack (acquire release : ε → Prop) (x : Run ε α) : Prop :=
  ∀ before c later, x.log = before ++ c :: later → acquire c →
    x.status ≠ .waiting → ∃ d ∈ later, release d

/-! ### Calls a run does not make -/

section Avoids
variable (p : ε → Prop)

theorem Avoids.pure (a : α) : Avoids p (Pure.pure a : Run ε α) := by
  simp [Avoids]

theorem Avoids.block : Avoids p (Run.block : Run ε α) := by
  simp [Avoids]

theorem Avoids.crash : Avoids p (Run.crash : Run ε α) := by
  simp [Avoids]

theorem Avoids.emit (c : ε) (hc : ¬ p c) : Avoids p (Run.emit c) := by
  simpa [Avoids, Run.emit] using hc

theorem avoids_after_iff (l : List ε) (x : Run ε α) :
    Avoids p (Run.after l x) ↔ (∀ c ∈ l, ¬ p c) ∧ Avoids p x := by
  simp only [Avoids, Run.after_log, List.forall_mem_append]

theorem Avoids.after (l : List ε) (x : Run ε α) (hl : ∀ c ∈ l, ¬ p c) (hx : Avoids p x) :
    Avoids p (Run.after l x) := (avoids_after_iff p l x).mpr ⟨hl, hx⟩

/-- A composed run avoids what its parts do, the second only where it is reached. -/
theorem avoids_bind_iff (x : Run ε α) (f : α → Run ε β) :
    Avoids p (x >>= f) ↔ Avoids p x ∧ ∀ a, x.status = .done a → Avoids p (f a) := by
  cases hs : x.status with
  | waiting => simp [Avoids, Bind.bind, hs]
  | undefined => simp [Avoids, Bind.bind, hs]
  | done a =>
    rw [Run.bind_of_done x f a hs, avoids_after_iff]
    simp [Avoids]

theorem Avoids.bind (x : Run ε α) (f : α → Run ε β) (hx : Avoids p x)
    (hf : ∀ a, Avoids p (f a)) : Avoids p (x >>= f) :=
  (avoids_bind_iff p x f).mpr ⟨hx, fun a _ => hf a⟩

theorem Avoids.mono {p} (q : ε → Prop) (x : Run ε α) (hx : Avoids p x) (h : ∀ c, q c → p c) :
    Avoids q x :=
  fun c hc hq => hx c hc (h c hq)

end Avoids

/-! ### Releasing -/

section Releases
variable (release : ε → Prop)

theorem Releases.of_mem (l : List ε) (x : Run ε α) (c : ε) (hc : c ∈ l) (hrel : release c) :
    Releases release (Run.after l x) :=
  fun _ => ⟨c, List.mem_append_left _ hc, hrel⟩

theorem releases_after_iff (l : List ε) (x : Run ε α) (hl : ∀ c ∈ l, ¬ release c) :
    Releases release (Run.after l x) ↔ Releases release x := by
  constructor
  · intro h hend
    obtain ⟨c, hc, hrel⟩ := h hend
    rcases List.mem_append.mp hc with hc | hc
    · exact absurd hrel (hl c hc)
    · exact ⟨c, hc, hrel⟩
  · intro h hend
    obtain ⟨c, hc, hrel⟩ := h hend
    exact ⟨c, List.mem_append_right _ hc, hrel⟩

/-- A run that ends without a releasing call does not release. -/
theorem not_releases (x : Run ε α) (hx : Avoids release x) (hend : x.status ≠ .waiting) :
    ¬ Releases release x := by
  intro h
  obtain ⟨c, hc, hrel⟩ := h hend
  exact hx c hc hrel

/-- After a part that makes no releasing call, the rest has to release; the part
itself must not end the run. -/
theorem releases_bind_iff (x : Run ε α) (f : α → Run ε β) (hx : Avoids release x) :
    Releases release (x >>= f) ↔
      x.status ≠ .undefined ∧ ∀ a, x.status = .done a → Releases release (f a) := by
  cases hs : x.status with
  | waiting => simp [Releases, bind, hs]
  | undefined =>
    simp only [ne_eq, not_true_eq_false, false_and, iff_false]
    refine not_releases release (x >>= f) ?_ ?_
    · simpa [Avoids, bind, hs] using hx
    · simp [bind, hs]
  | done a =>
    rw [Run.bind_of_done x f a hs, releases_after_iff release x.log (f a) hx]
    simp

end Releases

/-! ### Parts that always go on -/

/-- The run makes no call that satisfies `p` and stays clear of undefined behaviour. -/
structure Steady (p : ε → Prop) (x : Run ε α) : Prop where
  avoids : Avoids p x
  defined : x.status ≠ .undefined

section Steady
variable (p : ε → Prop)

theorem Steady.pure (a : α) : Steady p (Pure.pure a : Run ε α) :=
  ⟨Avoids.pure p a, by simp⟩

theorem Steady.block : Steady p (Run.block : Run ε α) :=
  ⟨Avoids.block p, by simp⟩

theorem Steady.emit (c : ε) (hc : ¬ p c) : Steady p (Run.emit c) :=
  ⟨Avoids.emit p c hc, by simp [Run.emit]⟩

theorem Steady.after (l : List ε) (x : Run ε α) (hl : ∀ c ∈ l, ¬ p c) (hx : Steady p x) :
    Steady p (Run.after l x) :=
  ⟨Avoids.after p l x hl hx.avoids, hx.defined⟩

theorem Steady.bind (x : Run ε α) (f : α → Run ε β) (hx : Steady p x)
    (hf : ∀ a, Steady p (f a)) : Steady p (x >>= f) where
  avoids := Avoids.bind p x f hx.avoids fun a => (hf a).avoids
  defined := by
    rw [Ne, Run.bind_undefined_iff]
    rintro (h | ⟨a, _, h⟩)
    · exact hx.defined h
    · exact (hf a).defined h

theorem Steady.mono {p} (q : ε → Prop) (x : Run ε α) (hx : Steady p x) (h : ∀ c, q c → p c) :
    Steady q x :=
  ⟨hx.avoids.mono q x h, hx.defined⟩

/-- After a steady part, releasing is up to what follows. -/
theorem Steady.releases_bind_iff (release : ε → Prop) (x : Run ε α) (f : α → Run ε β)
    (hx : Steady release x) :
    Releases release (x >>= f) ↔ ∀ a, x.status = .done a → Releases release (f a) := by
  rw [ReleasedRuns.releases_bind_iff release x f hx.avoids]
  exact and_iff_right hx.defined

end Steady

/-! ### Handing back -/

section HandsBack
variable (acquire release : ε → Prop)

theorem HandsBack.of_avoids (x : Run ε α) (hx : Avoids acquire x) :
    HandsBack acquire release x := by
  intro before c later hlog hacq _
  exact absurd hacq (hx c (by simp [hlog]))

/-- A list has one element that satisfies `p` if its neighbours do not. -/
theorem split_unique (p : ε → Prop) (l m before later : List ε) (c d : ε)
    (hl : ∀ e ∈ l, ¬ p e) (hm : ∀ e ∈ m, ¬ p e) (hd : p d)
    (h : l ++ c :: m = before ++ d :: later) : later = m := by
  rcases List.append_eq_append_iff.mp h with ⟨l', hbefore, hrest⟩ | ⟨l', hl', hrest⟩
  · cases l' with
    | nil => exact ((List.cons.injEq _ _ _ _).mp hrest).2.symm
    | cons e l' =>
      have hmem : d ∈ m := by
        rw [List.cons_append, List.cons.injEq] at hrest
        rw [hrest.2]
        simp
      exact absurd hd (hm d hmem)
  · cases l' with
    | nil => exact ((List.cons.injEq _ _ _ _).mp hrest).2
    | cons e l' =>
      rw [List.cons_append, List.cons.injEq] at hrest
      have hmem : d ∈ l := by
        rw [hl', hrest.1]
        simp
      exact absurd hd (hl d hmem)

/-- With a single acquisition, handing back is releasing in what follows it. -/
theorem handsBack_iff (l : List ε) (c : ε) (x : Run ε α) (hl : ∀ e ∈ l, ¬ acquire e)
    (hc : acquire c) (hx : Avoids acquire x) :
    HandsBack acquire release (Run.after (l ++ [c]) x) ↔ Releases release x := by
  have hlog : (Run.after (l ++ [c]) x).log = l ++ c :: x.log := by simp
  constructor
  · intro h hend
    exact h l c x.log hlog hc hend
  · intro h before d later hsplit hd hend
    have hlater : later = x.log :=
      split_unique acquire l x.log before later c d hl hx hd (hlog.symm.trans hsplit)
    rw [hlater]
    exact h hend

end HandsBack

/-! ### Tracking the resource -/

/-- A step function that follows whether a resource is held. -/
structure Tracks (acquire release : ε → Prop) (step : Bool → ε → Bool) : Prop where
  acquired : ∀ held c, acquire c → step held c = true
  released : ∀ held c, release c → step held c = false
  kept : ∀ held c, ¬ acquire c → ¬ release c → step held c = held

section Tracks
variable {acquire release : ε → Prop} {step : Bool → ε → Bool}

/-- The splits of a list at its elements: at the first one, or later. -/
theorem forall_split_cons_iff (P : ε → List ε → Prop) (c : ε) (log : List ε) :
    (∀ before d later, c :: log = before ++ d :: later → P d later) ↔
      P c log ∧ ∀ before d later, log = before ++ d :: later → P d later := by
  constructor
  · intro h
    refine ⟨h [] c log rfl, ?_⟩
    intro before d later hsplit
    exact h (c :: before) d later (by rw [hsplit, List.cons_append])
  · intro h before d later hsplit
    cases before with
    | nil =>
      rw [List.nil_append, List.cons.injEq] at hsplit
      rw [← hsplit.1, ← hsplit.2]
      exact h.1
    | cons e before =>
      rw [List.cons_append, List.cons.injEq] at hsplit
      exact h.2 before d later hsplit.2

/-- What is held at the end is what was held at first or acquired, and not released. -/
theorem Tracks.not_held_iff (htracks : Tracks acquire release step) (log : List ε) (held : Bool) :
    log.foldl step held = false ↔ (held = true → ∃ d ∈ log, release d) ∧
      ∀ before c later, log = before ++ c :: later → acquire c → ∃ d ∈ later, release d := by
  induction log generalizing held with
  | nil => simp
  | cons c log ih =>
    rw [List.foldl_cons, ih,
      forall_split_cons_iff (fun c later => acquire c → ∃ d ∈ later, release d), ← and_assoc]
    apply and_congr_left
    intro _
    by_cases hacq : acquire c
    · have hheld := htracks.acquired held c hacq
      constructor
      · intro h
        obtain ⟨d, hd, hrel⟩ := h hheld
        exact ⟨fun _ => ⟨d, List.mem_cons_of_mem c hd, hrel⟩, fun _ => ⟨d, hd, hrel⟩⟩
      · intro h _
        exact h.2 hacq
    · by_cases hrel : release c
      · have hheld := htracks.released held c hrel
        constructor
        · intro _
          exact ⟨fun _ => ⟨c, List.mem_cons_self, hrel⟩, fun h => absurd h hacq⟩
        · intro _ h
          rw [hheld] at h
          cases h
      · rw [htracks.kept held c hacq hrel]
        simp [hacq, hrel]

/-- Handing back, told by what is held at the end. -/
theorem Tracks.handsBack_iff (htracks : Tracks acquire release step) (x : Run ε α) :
    HandsBack acquire release x ↔ (x.status ≠ .waiting → x.log.foldl step false = false) := by
  rw [htracks.not_held_iff]
  constructor
  · intro h hend
    refine ⟨fun hheld => absurd hheld Bool.false_ne_true, ?_⟩
    intro before c later hlog hc
    exact h before c later hlog hc hend
  · intro h before c later hlog hc hend
    exact (h hend).2 before c later hlog hc

end Tracks

end OmapBootUtils.ReleasedRuns
