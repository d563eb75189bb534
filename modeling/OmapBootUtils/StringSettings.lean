import OmapBootUtils.TaggerImage

/-!
What the string settings of tagger write. The handler copies the string up to its NUL
and does not know where the field ends; beyond the field come the file name of the
loader and the memory banks.
-/
namespace OmapBootUtils.StringSettings

open ByteMemory CString PackedLayout ConfigHandler TagBuilder TaggerImage

/-- The string fields of struct board. -/
def stringFields : List Field := [⟨"bootargs", 1024⟩, ⟨"sty_file", 1024⟩]

def settingName (f : Field) : String := "board." ++ f.name

theorem boardLayout_distinct : boardLayout.Distinct := by decide

theorem stringFields_subset (f : Field) (hf : f ∈ stringFields) : f ∈ boardLayout := by
  simp only [stringFields, List.mem_cons, List.not_mem_nil, or_false] at hf
  rcases hf with rfl | rfl <;> simp [boardLayout]

/-- Either the value is rejected, or the field holds the string and its NUL; no byte of
another field changes. -/
structure KeptInField (f : Field) (objs : Objects TaggerObject) (text : List UInt8)
    (ret : LcfgStatus × Objects TaggerObject) : Prop where
  stored : ret.1 = .error ∨
    cString (ret.2 .myboard) (boardLayout.offset f.name) f.width = some text
  others : ∀ g ∈ boardLayout, g.name ≠ f.name →
    readBytes (ret.2 .myboard) (boardLayout.offset g.name) g.width =
      readBytes (objs .myboard) (boardLayout.offset g.name) g.width

theorem cText_no_nul (data : List UInt8) : (0 : UInt8) ∉ cText data := by
  intro hmem
  simpa using List.mem_takeWhile_imp hmem

section Call
variable (objs : Objects TaggerObject) (f : Field) (data : List UInt8)

/-- The handler accepts every string and copies it from the start of the field on. -/
theorem stringSetting_eq (hf : f ∈ stringFields) :
    compareEventhandler variableMap objs (settingName f) data =
      (.ok, fun _ => putBytes (objs .myboard) (boardLayout.offset f.name)
        (terminated (cText data))) := by
  have hentry : variableMap.find? (fun c => c.name == settingName f) =
      some (boardMember (settingName f) f.name typeS) := by
    simp only [stringFields, List.mem_cons, List.not_mem_nil, or_false] at hf
    rcases hf with rfl | rfl <;> decide
  simp only [compareEventhandler, compareEventhandlerOf, hentry]
  rfl

theorem length_lt_of_kept (hf : f ∈ stringFields) (h : KeptInField f objs (cText data)
    (compareEventhandler variableMap objs (settingName f) data)) :
    (cText data).length < f.width := by
  rw [stringSetting_eq objs f data hf] at h
  rcases h.stored with herror | hstored
  · cases herror
  · exact (cString_spec _ _ _ _ hstored).1

theorem kept_of_length_lt (hf : f ∈ stringFields) (h : (cText data).length < f.width) :
    KeptInField f objs (cText data)
      (compareEventhandler variableMap objs (settingName f) data) := by
  rw [stringSetting_eq objs f data hf]
  constructor
  · exact Or.inr (cString_putBytes _ _ _ _ (cText_no_nul data) h)
  · intro g hg hne
    apply readBytes_putBytes_outside
    have hapart := Layout.fields_apart boardLayout g f hg (stringFields_subset f hf)
      boardLayout_distinct hne
    have hlen : (terminated (cText data)).length = (cText data).length + 1 := by
      simp [terminated]
    omega

end Call

/-- A string setting keeps to its field exactly if the string leaves room for its NUL. -/
theorem string_setting_kept_iff (objs : Objects TaggerObject) (f : Field) (hf : f ∈ stringFields)
    (data : List UInt8) :
    KeptInField f objs (cText data)
        (compareEventhandler variableMap objs (settingName f) data) ↔
      (cText data).length < f.width :=
  ⟨length_lt_of_kept objs f data hf, kept_of_length_lt objs f data hf⟩

/-- A kernel command line for a board that has one. -/
theorem string_setting_kept_console :
    KeptInField ⟨"bootargs", 1024⟩ (fun _ _ => 0x61) (cText [0x20, 0x72, 0x6F, 0x6F, 0x74])
        (compareEventhandler variableMap (fun _ _ => 0x61) (settingName ⟨"bootargs", 1024⟩)
          [0x20, 0x72, 0x6F, 0x6F, 0x74]) ↔
      (cText [0x20, 0x72, 0x6F, 0x6F, 0x74]).length < 1024 :=
  string_setting_kept_iff (fun _ _ => 0x61) ⟨"bootargs", 1024⟩ (by simp [stringFields])
    [0x20, 0x72, 0x6F, 0x6F, 0x74]

/-- A kernel command line of 1024 letters. -/
theorem long_bootargs_spill :
    ¬ ∀ objs, ∀ f ∈ stringFields, ∀ data, KeptInField f objs (cText data)
      (compareEventhandler variableMap objs (settingName f) data) := by
  intro h
  have hkept := h (fun _ _ => 0) ⟨"bootargs", 1024⟩ (by simp [stringFields])
    (List.replicate 1024 0x61)
  have hlen := length_lt_of_kept _ _ _ (by simp [stringFields]) hkept
  have htext : cText (List.replicate 1024 0x61) = List.replicate 1024 0x61 := by
    apply List.takeWhile_eq_self_iff.mpr
    intro c hc
    rw [List.eq_of_mem_replicate hc]
    decide
  rw [htext, List.length_replicate] at hlen
  exact absurd hlen (lt_irrefl 1024)

end OmapBootUtils.StringSettings
