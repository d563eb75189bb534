import OmapBootUtils.DocumentTags
import OmapBootUtils.StyLoader

/-!
From the text of a configuration file to the kernel. tagger writes the image, and
the code at the start of the image leaves, at the address it hands to the kernel, a
list that is walked to the tags the document calls for.
-/
namespace OmapBootUtils.DocumentBoot

open ByteMemory ArmCore ConfigHandler RecordChain TagBuilder TagWalk TagBuffer ImageCalls
  TaggerImage StyLoader ConfigGrammar ConfigKeys ConfigText ScannedText DocumentSettings DocumentTags
open LcfgScanner (ReadResult)

/-! ### The list in another memory -/

/-- A walk stops at a length word of 0 with ATAG_NONE behind it, and nowhere else. -/
theorem readTag_stop_iff (s : Memory) (a e : ℕ) :
    readTag s a = some (.stop e) ↔
      (readU32 s a).toNat = 0 ∧ readU32 s (a + 4) = atagNone ∧ e = a + 8 := by
  unfold readTag
  simp only
  by_cases hsize : (readU32 s a).toNat = 0
  · by_cases htag : readU32 s (a + 4) = atagNone
    · simp [hsize, htag, eq_comm]
    · simp [hsize, htag]
  · simp only [hsize, if_false, false_and, iff_false]
    intro h
    repeat' split at h
    all_goals simp at h

/-- A walk over a list sees only its bytes. -/
theorem readTags_copied (b : Board) (buffer : Memory) (commandline : List UInt8)
    (h : b.bootargs = some commandline)
    (hfits : tagListSize (tagsWith b (sumSerialTags b) commandline) ≤ bufferSize) :
    ∃ out, generateTag buffer b =
        some (out, tagListSize (tagsWith b (sumSerialTags b) commandline)) ∧
      ∀ copy : Memory,
        (∀ j, j < tagListSize (tagsWith b (sumSerialTags b) commandline) → copy j = out j) →
        readTags (tagListSize (tagsWith b (sumSerialTags b) commandline)) copy =
          some (tagsWith b (sumSerialTags b) commandline,
            tagListSize (tagsWith b (sumSerialTags b) commandline)) := by
  obtain ⟨out, hgen, hlaid, hstop⟩ := generateTag_inside b buffer commandline h hfits
  refine ⟨out, hgen, ?_⟩
  intro copy hcopy
  have hwidth : ∀ t, 0 < tagFormat.width t := by
    intro t
    have := two_le_words t
    simp only [tagFormat]
    omega
  have hcount := tagFormat.length_le_span (tagsWith b (sumSerialTags b) commandline) hwidth
  have hsize : tagListSize (tagsWith b (sumSerialTags b) commandline) =
      tagFormat.span (tagsWith b (sumSerialTags b) commandline) + 8 := rfl
  rw [hsize] at hcopy ⊢
  apply walk_laid tagFormat copy (readTag copy) (readTag_holds copy) _ 0
  · exact tagFormat.laid_congr out copy 0 _ hlaid fun j _ hlt => (hcopy j (by omega)).symm
  · rw [Nat.zero_add, readTag_stop_iff]
    obtain ⟨hend, htag, -⟩ := (readTag_stop_iff _ _ _).mp hstop
    refine ⟨?_, ?_, rfl⟩
    · rw [readU32_congr copy out _ fun j _ hlt => hcopy j (by omega)]
      exact hend
    · rw [readU32_congr copy out _ fun j _ hlt => hcopy j (by omega)]
      exact htag
  · omega

/-! ### From the image to the kernel -/

/-- The code of the image on a list of words that fits: it copies the list and reaches the
jump with the kernel where r3 points. -/
theorem runs_to_jump (base machId : UInt32) (tags zImage : List UInt8) (s : State) (n : ℕ)
    (hp : Placed base machId tags zImage s.mem) (hstart : s.reg pc = base + 0x1D0)
    (hn : tags.length = 4 * n) (hcount : 0 < n) (hsmall : tags.length ≤ bufferSize) :
    ∃ steps s', run steps s = some s' ∧ AtJump base machId tags.length s' ∧
      (∀ j, (h : j < tags.length) → s'.mem (interimDataAddress + UInt32.ofNat j) = tags[j]) ∧
      Loaded s'.mem (s'.reg 3) zImage := by
  obtain ⟨t, ht, hloop⟩ := enter_loop n s hn hstart hp
  obtain ⟨steps, u, hu, hdone⟩ := loop_run hloop hn hcount hsmall hp
  obtain ⟨v, hv, hjump, hmem⟩ := leave_loop hdone hn hp
  refine ⟨5 + (steps + 7), v, run_trans ht (run_trans hu hv), hjump, ?_, ?_⟩
  · intro j hj
    rw [hmem, hdone.mem.copied j (by omega) (by omega)]
  · rw [hmem, hjump.r3]
    exact (hdone.mem.placed (by omega) hp).loaded_zImage

/-- What the kernel of a board starts from: the machine in r1, the tags of the board where r2
points to, and the zImage where r3 does. -/
structure HandsOver (s : BoardSettings) (zImage : List UInt8) (base : UInt32)
    (atJump : State) : Prop where
  jump : AtJump base s.machId s.listLength atJump
  list : readTags s.listLength (fun j => atJump.mem (atJump.reg 2 + UInt32.ofNat j)) =
    some (s.tags, s.listLength)
  kernel : Loaded atJump.mem (atJump.reg 3) zImage

/-- The image boots with the board: wherever it is loaded, off the place of the list, and run
from start_linux, the code comes to the jump to the zImage and hands it the board. -/
def Boots (s : BoardSettings) (zImage image : List UInt8) : Prop :=
  ∀ (base : UInt32) (start : State), base.toNat % 4 = 0 → Loaded start.mem base image →
    (∀ i, i < image.length →
      ¬ InBlock interimDataAddress s.listLength (base + UInt32.ofNat i)) →
    start.reg pc = base + 0x1D0 →
      ∃ steps atJump, run steps start = some atJump ∧ HandsOver s zImage base atJump

/-- The image of the machine and its command line, in front of a kernel of one byte. -/
def sdpImage : List UInt8 :=
  stored (taggerMain (.parsed (pairsOf sdpSettings)) (fun _ _ => 0)
    (completeEnv (fun _ => 0) (boardSettings sdpSettings).listLength styWords [0x7F])).log

def sdpStart : State where
  reg := Function.update (fun _ => 0) pc 0x802001D0
  flags := ⟨false, false, false, false⟩
  mem := imageAt 0x80200000 sdpImage

end OmapBootUtils.DocumentBoot
