import OmapBootUtils.ScriptedRun

/-!
Runs with more in their log than the calls of the program: values it computes, or what
a call is for. With these erased the run is the program's own; a part of the program
that needs no such notes is embedded as it is.
-/
namespace OmapBootUtils.InstrumentedRun

open ScriptedRun

variable {ε δ α β : Type}

/-- The run with what is not kept left out. -/
def erase (keep : ε → Option δ) (x : Run ε α) : Run δ α := ⟨x.log.filterMap keep, x.status⟩

def embed (mark : δ → ε) (x : Run δ α) : Run ε α := ⟨x.log.map mark, x.status⟩

section Erase
variable (keep : ε → Option δ)

@[simp] theorem erase_pure (a : α) : erase keep (pure a : Run ε α) = pure a := rfl

@[simp] theorem erase_status (x : Run ε α) : (erase keep x).status = x.status := rfl

@[simp] theorem erase_block : erase keep (Run.block : Run ε α) = Run.block := rfl

@[simp] theorem erase_crash : erase keep (Run.crash : Run ε α) = Run.crash := rfl

@[simp] theorem erase_after (l : List ε) (x : Run ε α) :
    erase keep (Run.after l x) = Run.after (l.filterMap keep) (erase keep x) := by
  simp [erase, Run.after]

@[simp] theorem erase_bind (x : Run ε α) (f : α → Run ε β) :
    erase keep (x >>= f) = erase keep x >>= fun a => erase keep (f a) := by
  cases hs : x.status <;> simp [erase, bind, hs, Run.after]

/-- An embedded run is left as it was. -/
theorem erase_embed (mark : δ → ε) (hkeep : ∀ d, keep (mark d) = some d) (x : Run δ α) :
    erase keep (embed mark x) = x := by
  have hlog : (x.log.map mark).filterMap keep = x.log := by
    rw [List.filterMap_map, Function.comp_def]
    simp only [hkeep, List.filterMap_some]
  rw [erase, embed, hlog]

end Erase

@[simp] theorem embed_log (mark : δ → ε) (x : Run δ α) : (embed mark x).log = x.log.map mark := rfl

@[simp] theorem embed_status (mark : δ → ε) (x : Run δ α) : (embed mark x).status = x.status := rfl

end OmapBootUtils.InstrumentedRun
