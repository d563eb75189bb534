import OmapBootUtils.GpsignImage
import OmapBootUtils.TaggerImage

/-!
What becomes of a configuration file with a pair the handler rejects. The table
of tagger has no entry that can reject a value. That of gpsign has, and its main
goes on to write an image from the settings before the rejected one.
-/
namespace OmapBootUtils.RejectedConfig

open ByteMemory ScriptedRun ImageCalls ConfigHandler ChSections ChHeader GpsignImage

/-- The run writes nothing and ends with a non-zero status. -/
def NoImage (x : Image ℤ) : Prop :=
  (∀ data accepted, .fwrite data accepted ∉ x.log) ∧ ∃ ret, ret ≠ 0 ∧ x.status = .done ret

/-- Once its input file is open, gpsign either writes or returns 0. -/
theorem gpsignBuild_noImage_iff (opts : GpsignOptions) (objs : Objects GpsignObject)
    (env : GpsignEnv) : NoImage (gpsignBuild opts objs env) ↔ env.inputOpened = false := by
  unfold gpsignBuild
  cases hinput : env.inputOpened with
  | false =>
    refine ⟨fun _ => rfl, fun _ => ⟨?_, -3, by decide, rfl⟩⟩
    simp
  | true =>
    simp only [not_true_eq_false, if_false, reduceCtorEq, iff_false]
    rintro ⟨hnone, ret, hret, hstatus⟩
    cases houtput : env.outputOpened with
    | false =>
      simp [houtput] at hstatus
      exact hret hstatus.symm
    | true =>
      obtain ⟨ch, r, hfill⟩ := fillupCh_isSome (platformOf objs) env.chBuffer
      apply hnone (leBytes 4 env.inputSize) env.sizeAccepted
      by_cases hr : r = 0
      · simp [houtput, hfill, hr]
      · simp [houtput, hfill, hr]

/-- tagger has words and strings only, and its handler accepts any of these. -/
theorem tagger_rejects_nothing (pair : Pair) : ¬ Rejected TaggerImage.variableMap pair :=
  not_rejected_of_words TaggerImage.variableMap (by decide) pair

/-- gpsign writes nothing for a file with a rejected pair exactly if its input file
cannot be opened; tagger rejects no pair. -/
theorem noImage_of_rejected_iff (opts : GpsignOptions) (pairs : List Pair)
    (m : Objects GpsignObject) (env : GpsignEnv) :
    (((∃ pair ∈ pairs, Rejected GpsignImage.variableMap pair) →
        NoImage (gpsignMain opts (.parsed pairs) m env)) ↔
      (∀ pair ∈ pairs, ¬ Rejected GpsignImage.variableMap pair) ∨ env.inputOpened = false) ∧
    ((∃ pair ∈ pairs, Rejected TaggerImage.variableMap pair) →
      ∀ board taggerEnv, NoImage (TaggerImage.taggerMain (.parsed pairs) board taggerEnv)) := by
  constructor
  · rw [gpsignMain, gpsignBuild_noImage_iff]
    constructor
    · intro h
      by_cases hrej : ∃ pair ∈ pairs, Rejected GpsignImage.variableMap pair
      · exact Or.inr (h hrej)
      · exact Or.inl fun pair hpair hp => hrej ⟨pair, hpair, hp⟩
    · rintro (hnone | hinput) ⟨pair, hpair, hrej⟩
      · exact absurd hrej (hnone pair hpair)
      · exact hinput
  · rintro ⟨pair, _, hrej⟩
    exact absurd hrej (tagger_rejects_nothing pair)

/-- An empty input file for which every call succeeds. -/
def emptyInputEnv : GpsignEnv where
  chBuffer := fun _ => 0
  ch := 0
  inputOpened := true
  inputSize := 0
  outputOpened := true
  headerAccepted := 512
  sizeAccepted := 4
  loadaddrAccepted := 4
  passes := []

/-- A byte set to 0x100 is rejected, and the image is written all the same. -/
theorem rejected_config_written :
    ¬ ∀ opts pairs m env, (∃ pair ∈ pairs, Rejected GpsignImage.variableMap pair) →
      NoImage (gpsignMain opts (.parsed pairs) m env) := by
  intro h
  have hrej : Rejected GpsignImage.variableMap
      ("platform_chsettings.valid", bytesOf "100") :=
    (rejected_iff GpsignImage.variableMap (fun _ _ => 0) _).mpr (by decide)
  have hnone := h ⟨0xFFFFFFFF, false⟩ [("platform_chsettings.valid", bytesOf "100")] (fun _ _ => 0)
    emptyInputEnv ⟨_, by simp, hrej⟩
  rw [gpsignMain, gpsignBuild_noImage_iff] at hnone
  exact absurd hnone (by decide)

end OmapBootUtils.RejectedConfig
