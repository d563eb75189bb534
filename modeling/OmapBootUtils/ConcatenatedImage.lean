import OmapBootUtils.CompleteImage

/-!
What tagger concatenates when every call succeeds: the sty file with its magic words
replaced, the tag list, and the zImage. The loop over the sty file counts whole words,
so a file whose length is no multiple of four loses its last bytes.
-/
namespace OmapBootUtils.ConcatenatedImage

open ByteMemory ScriptedRun ImageCalls TagBuilder TagWalk TagBuffer TaggerImage CopyLoops
open CompleteImage

/-- The 32-bit word at an offset of a file. -/
def wordAt (file : List UInt8) (off : ℕ) : UInt32 := UInt32.ofNat (leNat ((file.drop off).take 4))

/-- The file is the sty file with its magic words replaced, the tags and the zImage. -/
structure Concatenates (sty tags zImage : List UInt8) (machId : UInt32) (file : List UInt8) :
    Prop where
  length : file.length = sty.length + tags.length + zImage.length
  machId : ∀ k, 4 * k + 4 ≤ sty.length → wordAt sty (4 * k) = magicMachid →
    wordAt file (4 * k) = machId
  size : ∀ k, 4 * k + 4 ≤ sty.length → wordAt sty (4 * k) = magicInterimsize →
    wordAt file (4 * k) = UInt32.ofNat tags.length
  word : ∀ k, 4 * k + 4 ≤ sty.length → wordAt sty (4 * k) ≠ magicMachid →
    wordAt sty (4 * k) ≠ magicInterimsize → wordAt file (4 * k) = wordAt sty (4 * k)
  tail : ∀ i, 4 * (sty.length / 4) ≤ i → i < sty.length → file[i]? = sty[i]?
  rest : file.drop sty.length = tags ++ zImage

/-- Every file opens, the tag list is built, stat reports the lengths, every fread delivers
its item of the file and every fwrite takes what it is handed. -/
structure Succeeds (b : Board) (env : TaggerEnv) (sty zImage : List UInt8) (out : Memory)
    (tlen : ℕ) : Prop where
  opened : Opened b env out tlen
  stySize : env.stySize = sty.length
  styScripted : sty.length / 4 ≤ env.styItems.length
  styItem : ∀ k item, env.styItems[k]? = some item → k < sty.length / 4 →
    item.1.take 4 = (sty.drop (4 * k)).take 4 ∧ 4 ≤ item.2
  tags : tlen ≤ env.tagsAccepted
  inputSize : env.inputSize = zImage.length
  inputScripted : zImage.length ≤ env.inputItems.length
  inputItem : ∀ k item, env.inputItems[k]? = some item → k < zImage.length →
    item.1.take 1 = (zImage.drop k).take 1 ∧ 1 ≤ item.2

/-! ### The reads of a file -/

/-- Items that are the pieces of a file make up its beginning. -/
theorem flatMap_pieces (w : ℕ) (file : List UInt8) (items : List (List UInt8 × ℕ)) (n : ℕ)
    (hscripted : n ≤ items.length)
    (hitem : ∀ k item, items[k]? = some item → k < n →
      item.1.take w = (file.drop (w * k)).take w) :
    (items.take n).flatMap (fun item => item.1.take w) = file.take (w * n) := by
  induction n with
  | zero => simp
  | succ n ih =>
    obtain ⟨item, hget⟩ : ∃ item, items[n]? = some item :=
      ⟨_, List.getElem?_eq_getElem (by omega)⟩
    have hlast := hitem n item hget (by omega)
    rw [List.take_add_one, hget, List.flatMap_append,
      ih (by omega) (fun k item hk hlt => hitem k item hk (by omega))]
    simp only [Option.toList_some, List.flatMap_cons, List.flatMap_nil, List.append_nil, hlast]
    rw [← List.take_add, Nat.mul_succ]

/-- The words of a file are its words, whatever follows them. -/
theorem wordAt_flatMap (words : List UInt32) (rest : List UInt8) (k : ℕ) (hk : k < words.length) :
    wordAt (words.flatMap u32Bytes ++ rest) (4 * k) = words[k] := by
  induction words generalizing k with
  | nil => simp at hk
  | cons w words ih =>
    rw [List.flatMap_cons, List.append_assoc]
    cases k with
    | zero =>
      rw [wordAt, Nat.mul_zero, List.drop_zero, List.take_left' (u32Bytes_length w),
        ofNat_leNat_u32Bytes, List.getElem_cons_zero]
    | succ k =>
      have hdrop : (u32Bytes w ++ (words.flatMap u32Bytes ++ rest)).drop (4 * (k + 1)) =
          (words.flatMap u32Bytes ++ rest).drop (4 * k) := by
        rw [Nat.mul_succ, Nat.add_comm, ← List.drop_drop, List.drop_left' (u32Bytes_length w)]
      have hrest := ih k (by simpa using hk)
      rw [wordAt] at hrest ⊢
      rw [hdrop, hrest, List.getElem_cons_succ]

theorem length_flatMap_u32Bytes (words : List UInt32) :
    (words.flatMap u32Bytes).length = 4 * words.length := by
  induction words with
  | nil => rfl
  | cons w words ih =>
    rw [List.flatMap_cons, List.length_append, ih, u32Bytes_length, List.length_cons]
    omega

/-- Words that are switched one by one concatenate with what follows. -/
theorem concatenates_words (words : List UInt32) (tags zImage : List UInt8) (machId : UInt32) :
    Concatenates (words.flatMap u32Bytes) tags zImage machId
      ((words.map (patchWord machId (UInt32.ofNat tags.length))).flatMap u32Bytes ++
        (tags ++ zImage)) := by
  have hlength := length_flatMap_u32Bytes words
  have hpatched := length_flatMap_u32Bytes
    (words.map (patchWord machId (UInt32.ofNat tags.length)))
  rw [List.length_map] at hpatched
  have hsty : ∀ k, (hk : k < words.length) →
      wordAt (words.flatMap u32Bytes) (4 * k) = words[k] := by
    intro k hk
    have h := wordAt_flatMap words [] k hk
    rwa [List.append_nil] at h
  have hfile : ∀ k, (hk : k < words.length) → wordAt
      ((words.map (patchWord machId (UInt32.ofNat tags.length))).flatMap u32Bytes ++
        (tags ++ zImage)) (4 * k) =
      patchWord machId (UInt32.ofNat tags.length) words[k] := by
    intro k hk
    rw [wordAt_flatMap _ _ k (by simpa using hk), List.getElem_map]
  have hin : ∀ k, 4 * k + 4 ≤ (words.flatMap u32Bytes).length → k < words.length := by
    intro k hk
    omega
  constructor
  case length =>
    rw [List.length_append, List.length_append, hpatched, hlength]
    omega
  case machId =>
    intro k hk hmagic
    rw [hsty k (hin k hk)] at hmagic
    rw [hfile k (hin k hk), patchWord, if_pos hmagic]
  case size =>
    intro k hk hmagic
    rw [hsty k (hin k hk)] at hmagic
    have hlt := hin k hk
    have hne : words[k] ≠ magicMachid := by
      rw [hmagic]
      decide
    rw [hfile k hlt, patchWord, if_neg hne, if_pos hmagic]
  case word =>
    intro k hk hmachid hsize
    rw [hsty k (hin k hk)] at hmachid hsize ⊢
    rw [hfile k (hin k hk), patchWord, if_neg hmachid, if_neg hsize]
  case tail =>
    intro i hi hlt
    omega
  case rest => exact List.drop_left' (by rw [hpatched, hlength])

/-! ### The run -/

section Run

variable {b : Board} {env : TaggerEnv} {sty zImage : List UInt8} {out : Memory} {tlen : ℕ}

/-- The loop over the sty file writes its whole words, switched. -/
theorem Succeeds.styLoop_writes (h : Succeeds b env sty zImage out tlen)
    (hint : sty.length / 4 < 2 ^ 31) :
    (styLoop b.machId (UInt32.ofNat tlen) env.stySize env.styItems 0).status = .done () ∧
      ∃ words : List UInt32, sty.take (4 * (sty.length / 4)) = words.flatMap u32Bytes ∧
        writes (styLoop b.machId (UInt32.ofNat tlen) env.stySize env.styItems 0).log =
          words.map (patchedBytes b.machId (UInt32.ofNat tlen)) := by
  have hscripted := h.styScripted
  have hdelivered := flatMap_pieces 4 sty env.styItems (sty.length / 4) hscripted
    fun k item hk hlt => (h.styItem k item hk hlt).1
  have hlength : (sty.take (4 * (sty.length / 4))).length = 4 * (sty.length / 4) := by
    rw [List.length_take]
    omega
  rw [h.stySize]
  refine ⟨styLoop_status _ _ _ _ 0 hint (by omega), ?_⟩
  have hcopies := (styLoop_copies_iff b.machId (UInt32.ofNat tlen) sty.length env.styItems 0
    (sty.take (4 * (sty.length / 4))) hint (by omega)
    (by simp only [Nat.sub_zero, hdelivered, List.prefix_rfl])).mpr ?_
  · obtain ⟨words, hwords, -, hwrites⟩ := hcopies
    exact ⟨words, hwords, hwrites⟩
  · refine ⟨by rw [hlength, Nat.sub_zero], ?_⟩
    intro k item hk hlt
    rw [Nat.zero_add] at hlt
    obtain ⟨hitem, haccepted⟩ := h.styItem k item hk hlt
    have hfour := congrArg List.length hitem
    rw [List.length_take, List.length_take, List.length_drop] at hfour
    exact ⟨by omega, haccepted⟩

/-- The loop over the zImage writes its bytes. -/
theorem Succeeds.zImageLoop_writes (h : Succeeds b env sty zImage out tlen)
    (hint : zImage.length < 2 ^ 31) :
    (zImageLoop env.inputSize env.inputItems 0 env.ch).status = .done () ∧
      writes (zImageLoop env.inputSize env.inputItems 0 env.ch).log = zImage.map ([·]) := by
  have hscripted := h.inputScripted
  have hdelivered := flatMap_pieces 1 zImage env.inputItems zImage.length hscripted
    fun k item hk hlt => by
      rw [Nat.one_mul]
      exact (h.inputItem k item hk hlt).1
  rw [h.inputSize]
  refine ⟨zImageLoop_status _ _ _ hint hscripted, ?_⟩
  have hcopies := (zImageLoop_copies_iff zImage.length env.inputItems env.ch zImage hint hscripted
    (by simp only [hdelivered, Nat.one_mul, List.take_length, List.prefix_rfl])).mpr ?_
  · exact hcopies.2
  · refine ⟨rfl, ?_⟩
    intro k item hk hlt
    obtain ⟨hitem, haccepted⟩ := h.inputItem k item hk hlt
    have hone := congrArg List.length hitem
    rw [List.length_take, List.length_take, List.length_drop] at hone
    exact ⟨fun hnil => by simp [hnil] at hone; omega, haccepted⟩

/-- The output: the whole words of the sty file switched, the tags and the zImage. -/
theorem Succeeds.stored (h : Succeeds b env sty zImage out tlen)
    (hstyInt : sty.length / 4 < 2 ^ 31) (hzInt : zImage.length < 2 ^ 31) :
    (taggerBuild b env).status = .done 0 ∧
      ∃ words : List UInt32, sty.take (4 * (sty.length / 4)) = words.flatMap u32Bytes ∧
        ImageCalls.stored (taggerBuild b env).log =
          (words.map (patchWord b.machId (UInt32.ofNat tlen))).flatMap u32Bytes ++
            (readBytes out 0 tlen ++ zImage) := by
  obtain ⟨hstyDone, words, hwords, hstyWrites⟩ := h.styLoop_writes hstyInt
  obtain ⟨hzDone, hzWrites⟩ := h.zImageLoop_writes hzInt
  have htags : (readBytes out 0 tlen).take env.tagsAccepted = readBytes out 0 tlen :=
    List.take_of_length_le (by rw [readBytes_length]; exact h.tags)
  have hpatched : (words.map (patchedBytes b.machId (UInt32.ofNat tlen))).flatten =
      (words.map (patchWord b.machId (UInt32.ofNat tlen))).flatMap u32Bytes := by
    rw [List.flatMap_def, List.map_map]
    rfl
  have hbytes : (zImage.map ([·])).flatten = zImage := by
    rw [← List.flatMap_def]
    exact List.flatMap_singleton' zImage
  rw [taggerBuild_done b env out tlen h.opened hstyDone hzDone]
  refine ⟨rfl, words, hwords, ?_⟩
  rw [Run.after_log, Run.pure_log, List.append_nil, stored_eq_writes, writes_openedCalls,
    hstyWrites, hzWrites, htags, List.flatten_append, List.flatten_cons, hpatched, hbytes]

/-- The bytes behind the last whole word of the sty file are missing. -/
theorem Succeeds.stored_length (h : Succeeds b env sty zImage out tlen)
    (hstyInt : sty.length / 4 < 2 ^ 31) (hzInt : zImage.length < 2 ^ 31) :
    (ImageCalls.stored (taggerBuild b env).log).length =
      4 * (sty.length / 4) + tlen + zImage.length := by
  obtain ⟨-, words, hwords, hstored⟩ := h.stored hstyInt hzInt
  have hlength := congrArg List.length hwords
  rw [length_flatMap_u32Bytes, List.length_take] at hlength
  rw [hstored, List.length_append, List.length_append, length_flatMap_u32Bytes, List.length_map,
    readBytes_length]
  omega

/-- tagger loses nothing exactly when the sty file is a number of whole words, and neither
the words nor the bytes of the zImage are more than its loop counter counts. -/
theorem tagger_concatenates_iff (h : Succeeds b env sty zImage out tlen) :
    ((taggerBuild b env).status = .done 0 ∧
      Concatenates sty (readBytes out 0 tlen) zImage b.machId
        (ImageCalls.stored (taggerBuild b env).log)) ↔
      4 ∣ sty.length ∧ sty.length / 4 < 2 ^ 31 ∧ zImage.length < 2 ^ 31 := by
  have hread : (readBytes out 0 tlen).length = tlen := readBytes_length out 0 tlen
  by_cases hint : sty.length / 4 < 2 ^ 31 ∧ zImage.length < 2 ^ 31
  · obtain ⟨hdone, words, hwords, hstored⟩ := h.stored hint.1 hint.2
    constructor
    · intro hkept
      refine ⟨?_, hint⟩
      have htotal := hkept.2.length
      rw [h.stored_length hint.1 hint.2, hread] at htotal
      omega
    · intro hcond
      refine ⟨hdone, ?_⟩
      rw [List.take_of_length_le (by omega)] at hwords
      have hconcat := concatenates_words words (readBytes out 0 tlen) zImage b.machId
      rwa [hread, ← hwords, ← hstored] at hconcat
  · constructor
    · intro hkept
      have hover : 2 ^ 31 ≤ env.stySize / 4 ∨ 2 ^ 31 ≤ env.inputSize := by
        rw [h.stySize, h.inputSize]
        omega
      exact absurd hkept.1 (taggerBuild_overflow b env out tlen h.opened hover)
    · intro hcond
      exact absurd hcond.2 hint

end Run

/-- Every call succeeds on these inputs, the sty file in items of four bytes. -/
def smallEnv (stySize : ℕ) (styItems : List (List UInt8 × ℕ)) : TaggerEnv :=
  ⟨fun _ => 0, 0, true, true, true, stySize, styItems, 1024, 1, [([0x41], 1)]⟩

theorem smallEnv_succeeds (sty : List UInt8) (styItems : List (List UInt8 × ℕ))
    (hscripted : sty.length / 4 ≤ styItems.length)
    (hitem : ∀ k item, styItems[k]? = some item → k < sty.length / 4 →
      item.1.take 4 = (sty.drop (4 * k)).take 4 ∧ 4 ≤ item.2) :
    ∃ out tlen, Succeeds consoleBoard (smallEnv sty.length styItems) sty [0x41] out tlen := by
  have hargs : consoleBoard.bootargs = some [0x20, 0x72, 0x6F] := by decide
  have hfits : listBytes consoleBoard [0x20, 0x72, 0x6F] ≤ bufferSize := by decide
  obtain ⟨out, hgen⟩ :=
    (generateTag_some_iff consoleBoard (fun _ => 0) _).mpr ⟨_, hargs, rfl, hfits⟩
  refine ⟨out, _, ⟨rfl, rfl, rfl, hgen⟩, rfl, hscripted, hitem, hfits, rfl, Nat.le_refl 1, ?_⟩
  intro k item hk hlt
  obtain rfl : k = 0 := Nat.lt_one_iff.mp hlt
  obtain rfl : ([0x41], 1) = item := Option.some.inj hk
  exact ⟨rfl, Nat.le_refl 1⟩

/-- A sty file of one word. -/
theorem tagger_concatenates_word :
    ∃ out tlen, Succeeds consoleBoard (smallEnv 4 [([0xEF, 0xBE, 0xAD, 0xDE], 4)])
        [0xEF, 0xBE, 0xAD, 0xDE] [0x41] out tlen ∧
      (((taggerBuild consoleBoard (smallEnv 4 [([0xEF, 0xBE, 0xAD, 0xDE], 4)])).status = .done 0 ∧
        Concatenates [0xEF, 0xBE, 0xAD, 0xDE] (readBytes out 0 tlen) [0x41] consoleBoard.machId
          (stored (taggerBuild consoleBoard
            (smallEnv 4 [([0xEF, 0xBE, 0xAD, 0xDE], 4)])).log)) ↔
        4 ∣ 4 ∧ 4 / 4 < 2 ^ 31 ∧ 1 < 2 ^ 31) := by
  obtain ⟨out, tlen, h⟩ := smallEnv_succeeds [0xEF, 0xBE, 0xAD, 0xDE]
    [([0xEF, 0xBE, 0xAD, 0xDE], 4)] (Nat.le_refl 1) (by
      intro k item hk hlt
      obtain rfl : k = 0 := Nat.lt_one_iff.mp hlt
      obtain rfl := Option.some.inj hk
      exact ⟨rfl, Nat.le_refl 4⟩)
  exact ⟨out, tlen, h, tagger_concatenates_iff h⟩

/-- The only byte of a sty file is lost. -/
theorem sty_byte_lost :
    ¬ ∀ b env sty zImage out tlen, Succeeds b env sty zImage out tlen →
      (taggerBuild b env).status = .done 0 ∧
        Concatenates sty (readBytes out 0 tlen) zImage b.machId
          (stored (taggerBuild b env).log) := by
  intro h
  obtain ⟨out, tlen, hsucceeds⟩ := smallEnv_succeeds [0x41] [] (Nat.le_refl 0) (by
    intro k item hk
    simp at hk)
  have hlength := (h _ _ _ _ out tlen hsucceeds).2.length
  rw [hsucceeds.stored_length (by decide) (by decide), readBytes_length] at hlength
  simp at hlength

end OmapBootUtils.ConcatenatedImage
