import OmapBootUtils.ArmCore
import OmapBootUtils.TaggerImage

/-!
The hand-off code of sty-omap3.S run on the image tagger writes. The image lies
at any word-aligned address; the copy loop moves the tag list to the interim data
address, one word in each pass, and the code after it loads what the kernel
expects and jumps to the first byte of the zImage.
-/
namespace OmapBootUtils.StyLoader

open ByteMemory ArmCore ImageCalls TagBuilder TaggerImage

/-- The words of sty-omap3.S, from sty_start to sty_end. -/
def styWords : List UInt32 :=
  [0xE10F0000, 0xE3C0001F, 0xE38000D3, 0xE129F000, 0xE59F020C, 0xE59F120C, 0xE5801048, 0xE1A00000,
    0xE5902034, 0xE3520000, 0x1AFFFFFC, 0xE59F11F8, 0xE5801048, 0xE1A00000, 0xE5902034, 0xE3520000,
    0x1AFFFFFC, 0xE3A00000, 0xEE080F17, 0xEE070F35, 0xE3A0C001, 0xE1600070, 0xEE110F10, 0xE3C00A02,
    0xE3C00007, 0xE3800002, 0xEE010F10, 0xE3A000C0, 0xE10F3000, 0xE1832000, 0xE121F002, 0xE59F0124,
    0xE5901000, 0xE59F2120, 0xE1811002, 0xE5801000, 0xE59F0118, 0xE5901000, 0xE59F210C, 0xE1811002,
    0xE5801000, 0xE59F0108, 0xE5901000, 0xE59F2108, 0xE1811002, 0xE5801000, 0xE59F00F8, 0xE5901000,
    0xE1811002, 0xE5801000, 0xE59F00F8, 0xE5D01000, 0xE3C110FF, 0xE3A02000, 0xE1811002, 0xE5C01000,
    0xE59F00E4, 0xE5D01000, 0xE3C110FF, 0xE3A02000, 0xE1811002, 0xE5C01000, 0xE59F20C4, 0xEB000002,
    0xE59F20B8, 0xEB000000, 0xEA000030, 0xE1A0000E, 0xE3A030BF, 0xE5C2300C, 0xE3A03010, 0xE5C23008,
    0xE5D2400C, 0xE3C44080, 0xE5C2400C, 0xE3A03000, 0xE5C23004, 0xE3A03000, 0xE5C23010, 0xE5D2400C,
    0xE3C44040, 0xE5C2400C, 0xE3A03007, 0xE5C23020, 0xE5D23010, 0xE3833040, 0xE5C23010, 0xE3A03000,
    0xE5C2301C, 0xE3A03005, 0xE5C23008, 0xE3A03080, 0xE3833003, 0xE3833000, 0xE3833000, 0xE5C2300C,
    0xE3A0301A, 0xE5C23000, 0xE3A03000, 0xE5C23004, 0xE5D2400C, 0xE3C44080, 0xE5C2400C, 0xE3A03000,
    0xE5C23020, 0xE1A0F000, 0x48004A00, 0x00006000, 0x48004A10, 0x48005000, 0x48005010, 0x00000800,
    0x49020000, 0x4806A000, 0x48002182, 0x4800217C, 0xE28F0060, 0xE59F1058, 0xE59F3040, 0xE2800004,
    0xE2811008, 0xE5904000, 0xE5834000, 0xE2411004, 0xE2800004, 0xE2833004, 0xE3510008, 0xCAFFFFF8,
    0xE59F1028, 0xE28F402C, 0xE59F5024, 0xE0843005, 0xE2833004, 0xE59F2004, 0xE3A00000, 0xE12FFF13,
    0x80000100, 0x48314000, 0x0000AAAA, 0x00005555, 0xDEADBEEF, 0xCAFEBEEF, 0x00000000]

/-- The source from start_linux to the jump, with the labels resolved. -/
def startLinux : List Instr :=
  [ .addImm r0 pc 0x60,   -- adr r0, sty_end
    .ldr r1 pc 0x58,      -- ldr r1, interim_data_size
    .ldr r3 pc 0x40,      -- ldr r3, interim_data_store
    .addImm r0 r0 4,
    .addImm r1 r1 8,
    .ldr r4 r0 0,         -- copy_loop
    .str r4 r3 0,
    .subImm r1 r1 4,
    .addImm r0 r0 4,
    .addImm r3 r3 4,
    .cmpImm r1 8,
    .b .gt (0 - 32),      -- bgt copy_loop
    .ldr r1 pc 0x28,      -- ldr r1, mach_id
    .addImm r4 pc 0x2C,   -- adr r4, sty_end
    .ldr r5 pc 0x24,      -- ldr r5, interim_data_size
    .addReg r3 r4 r5,
    .addImm r3 r3 4,
    .ldr r2 pc 0x04,      -- ldr r2, interim_data_store
    .movImm r0 0,
    .bx r3 ]

def interimDataAddress : UInt32 := 0x80000100

/-- start_linux is word 116 of sty-omap3.S, and its words are the source's code. -/
theorem styWords_startLinux :
    ((styWords.drop 116).take startLinux.length).map decode = startLinux.map some := by
  decide +kernel

/-! ### The image in memory -/

/-- The bytes lie in memory from `base` on. -/
def Loaded (m : UInt32 → UInt8) (base : UInt32) (bytes : List UInt8) : Prop :=
  ∀ i (h : i < bytes.length), m (base + UInt32.ofNat i) = bytes[i]

theorem flatMap_u32Bytes_length (words : List UInt32) :
    (words.flatMap u32Bytes).length = 4 * words.length := by
  induction words with
  | nil => rfl
  | cons w words ih =>
    rw [List.flatMap_cons, List.length_append, ih, u32Bytes_length, List.length_cons]
    omega

theorem flatMap_u32Bytes_getElem? (words : List UInt32) (rest : List UInt8) (k : ℕ) (w : UInt32)
    (hk : words[k]? = some w) (i : ℕ) (hi : i < 4) :
    (words.flatMap u32Bytes ++ rest)[4 * k + i]? = (u32Bytes w)[i]? := by
  induction words generalizing k with
  | nil => simp at hk
  | cons v words ih =>
    rw [List.flatMap_cons, List.append_assoc]
    cases k with
    | zero =>
      simp only [List.getElem?_cons_zero, Option.some.injEq] at hk
      rw [hk, Nat.mul_zero, Nat.zero_add,
        List.getElem?_append_left (by rw [u32Bytes_length]; exact hi)]
    | succ k =>
      rw [List.getElem?_append_right (by rw [u32Bytes_length]; omega), u32Bytes_length,
        show 4 * (k + 1) + i - 4 = 4 * k + i by omega]
      exact ih k (by simpa using hk)

section Memory
variable (m : UInt32 → UInt8) (base : UInt32) (words : List UInt32) (rest : List UInt8)

theorem loaded_word (h : Loaded m base (words.flatMap u32Bytes ++ rest)) (k : ℕ) (w : UInt32)
    (hk : words[k]? = some w) : read32 m (base + UInt32.ofNat (4 * k)) = w := by
  have hlt : k < words.length := (List.getElem?_eq_some_iff.mp hk).1
  have hlen := flatMap_u32Bytes_length words
  have hbytes : readBytes (fun i => m (base + UInt32.ofNat (4 * k) + UInt32.ofNat i)) 0 4 =
      u32Bytes w := by
    apply List.ext_getElem?
    intro i
    by_cases hi : i < 4
    · have hin : 4 * k + i < (words.flatMap u32Bytes ++ rest).length := by
        rw [List.length_append]
        omega
      rw [← flatMap_u32Bytes_getElem? words rest k w hk i hi, List.getElem?_eq_getElem hin,
        ← h (4 * k + i) hin, List.getElem?_eq_getElem (by simpa using hi)]
      simp [UInt32.add_assoc]
    · rw [List.getElem?_eq_none (by simpa using hi),
        List.getElem?_eq_none (by rw [u32Bytes_length]; omega)]
  rw [read32, readU32, hbytes, ofNat_leNat_u32Bytes]

theorem loaded_rest (h : Loaded m base (words.flatMap u32Bytes ++ rest)) :
    Loaded m (base + UInt32.ofNat (4 * words.length)) rest := by
  intro i hi
  have hlen := flatMap_u32Bytes_length words
  have := h (4 * words.length + i) (by rw [List.length_append]; omega)
  rw [UInt32.ofNat_add, ← UInt32.add_assoc] at this
  rw [this, List.getElem_append_right (by omega)]
  simp [hlen]

end Memory

theorem loaded_append_left (m : UInt32 → UInt8) (base : UInt32) (xs ys : List UInt8)
    (h : Loaded m base (xs ++ ys)) : Loaded m base xs := by
  intro i hi
  rw [h i (by rw [List.length_append]; omega), List.getElem_append_left hi]

theorem loaded_append_right (m : UInt32 → UInt8) (base : UInt32) (xs ys : List UInt8)
    (h : Loaded m base (xs ++ ys)) : Loaded m (base + UInt32.ofNat xs.length) ys := by
  intro i hi
  have := h (xs.length + i) (by rw [List.length_append]; omega)
  rw [UInt32.ofNat_add, ← UInt32.add_assoc] at this
  rw [this, List.getElem_append_right (by omega)]
  simp

section Image
variable (base machId : UInt32) (tags zImage : List UInt8)

/-- The words of sty-omap3.S as tagger writes them. -/
def patchedWords : List UInt32 :=
  styWords.map (patchWord machId (UInt32.ofNat tags.length))

theorem patchedWords_length : (patchedWords machId tags).length = 143 := by
  rw [patchedWords, List.length_map]
  rfl

theorem imageBytes_eq : imageBytes styWords machId tags zImage =
    (patchedWords machId tags).flatMap u32Bytes ++ (tags ++ zImage) := by
  rw [imageBytes, patchedWords, List.append_assoc]

/-- tagger replaces no word of the code. -/
theorem code_not_magic : ∀ w ∈ (styWords.drop 116).take startLinux.length,
    w ≠ magicMachid ∧ w ≠ magicInterimsize := by
  have hall : ((styWords.drop 116).take startLinux.length).all
      (fun w => decide (w ≠ magicMachid ∧ w ≠ magicInterimsize)) = true := by decide +kernel
  intro w hw
  exact of_decide_eq_true (List.all_eq_true.mp hall w hw)

theorem patchedWords_startLinux (i : ℕ) (instr : Instr) (hi : startLinux[i]? = some instr) :
    ∃ w, (patchedWords machId tags)[116 + i]? = some w ∧ decode w = some instr := by
  have hlt : i < startLinux.length := (List.getElem?_eq_some_iff.mp hi).1
  have hdecode := congrArg (fun l => l[i]?) styWords_startLinux
  simp only [List.getElem?_map, hi, Option.map_some] at hdecode
  obtain ⟨w, hw, hinstr⟩ := Option.map_eq_some_iff.mp hdecode
  obtain ⟨hmach, hsize⟩ := code_not_magic w (List.mem_of_getElem? hw)
  rw [List.getElem?_take_of_lt hlt, List.getElem?_drop] at hw
  refine ⟨w, ?_, hinstr⟩
  rw [patchedWords, List.getElem?_map, hw, Option.map_some, patchWord, if_neg hmach, if_neg hsize]

/-- The image lies at a word-aligned address, clear of the interim data area. -/
structure Placed (m : UInt32 → UInt8) : Prop where
  aligned : base.toNat % 4 = 0
  loaded : Loaded m base (imageBytes styWords machId tags zImage)
  apart : ∀ i, i < (imageBytes styWords machId tags zImage).length →
    ¬ InBlock interimDataAddress tags.length (base + UInt32.ofNat i)

variable {base machId tags zImage} {m : UInt32 → UInt8}

theorem Placed.word (h : Placed base machId tags zImage m) (k : ℕ) (w : UInt32)
    (hk : (patchedWords machId tags)[k]? = some w) :
    read32 m (base + UInt32.ofNat (4 * k)) = w := by
  have hloaded := h.loaded
  rw [imageBytes_eq] at hloaded
  exact loaded_word m base _ _ hloaded k w hk

theorem Placed.codeAt (h : Placed base machId tags zImage m) :
    CodeAt m (base + 0x1D0) startLinux := by
  intro i instr hi
  obtain ⟨w, hw, hinstr⟩ := patchedWords_startLinux machId tags i instr hi
  have hread := h.word (116 + i) w hw
  rw [Nat.mul_add, UInt32.ofNat_add, ← UInt32.add_assoc] at hread
  rw [show (0x1D0 : UInt32) = UInt32.ofNat (4 * 116) from rfl, hread, hinstr]

theorem Placed.loaded_tags (h : Placed base machId tags zImage m) :
    Loaded m (base + 0x23C) tags := by
  have hloaded := h.loaded
  rw [imageBytes_eq] at hloaded
  have hrest := loaded_rest m base _ _ hloaded
  rw [patchedWords_length] at hrest
  exact loaded_append_left m _ tags zImage hrest

theorem Placed.loaded_zImage (h : Placed base machId tags zImage m) :
    Loaded m (base + 0x23C + UInt32.ofNat tags.length) zImage := by
  have hloaded := h.loaded
  rw [imageBytes_eq] at hloaded
  have hrest := loaded_rest m base _ _ hloaded
  rw [patchedWords_length] at hrest
  exact loaded_append_right m _ tags zImage hrest

theorem Placed.aligned_at (h : Placed base machId tags zImage m) (k : ℕ) :
    (base + UInt32.ofNat (4 * k)).toNat % 4 = 0 :=
  aligned_add base (4 * k) h.aligned (by omega)

/-! ### The copy loop -/

/-- The first `4 * k` bytes of the interim data area are those of the tag list,
and nothing else has changed. -/
structure Copied (tags : List UInt8) (before m : UInt32 → UInt8) (k : ℕ) : Prop where
  copied : ∀ j (h : j < tags.length), j < 4 * k →
    m (interimDataAddress + UInt32.ofNat j) = tags[j]
  kept : ∀ x, ¬ InBlock interimDataAddress (4 * k) x → m x = before x

theorem Copied.start (tags : List UInt8) (m : UInt32 → UInt8) : Copied tags m m 0 where
  copied j _ hj := by omega
  kept _ _ := rfl

variable {before : UInt32 → UInt8}

theorem Copied.placed {k : ℕ} (h : Copied tags before m k) (hk : 4 * k ≤ tags.length)
    (hp : Placed base machId tags zImage before) : Placed base machId tags zImage m where
  aligned := hp.aligned
  loaded i hi := by
    rw [h.kept _ fun hin => hp.apart i hi (Nat.lt_of_lt_of_le hin hk)]
    exact hp.loaded i hi
  apart := hp.apart

/-- One pass stores the next word of the tag list. -/
theorem Copied.next {k : ℕ} (h : Copied tags before m k) (hk : 4 * (k + 1) ≤ tags.length)
    (hlen : tags.length ≤ bufferSize) (hp : Placed base machId tags zImage before) :
    Copied tags before (write32 m (interimDataAddress + UInt32.ofNat (4 * k))
      (read32 m (base + 0x23C + UInt32.ofNat (4 * k)))) (k + 1) where
  copied j hj hlt := by
    have hsize : bufferSize = 1024 := rfl
    by_cases hold : j < 4 * k
    · rw [write32_outside _ _ _ _ ?_]
      · exact h.copied j hj hold
      · have hdiff : interimDataAddress + UInt32.ofNat j -
            (interimDataAddress + UInt32.ofNat (4 * k)) =
              UInt32.ofNat j - UInt32.ofNat (4 * k) := by grind
        rw [InBlock, hdiff, UInt32.toNat_sub, UInt32.toNat_ofNat', UInt32.toNat_ofNat']
        omega
    · obtain ⟨i, rfl⟩ := Nat.exists_eq_add_of_le (Nat.le_of_not_lt hold)
      have htags := (h.placed (by omega) hp).loaded_tags (4 * k + i) hj
      rw [UInt32.ofNat_add, ← UInt32.add_assoc] at htags
      rw [UInt32.ofNat_add, ← UInt32.add_assoc,
        write32_read32 m m _ _ i (by omega), htags]
  kept x hx := by
    have hsize : bufferSize = 1024 := rfl
    have hsub : x - interimDataAddress =
        UInt32.ofNat (4 * k) + (x - (interimDataAddress + UInt32.ofNat (4 * k))) := by grind
    have hnat := congrArg UInt32.toNat hsub
    rw [UInt32.toNat_add, UInt32.toNat_ofNat'] at hnat
    have hlt := (x - (interimDataAddress + UInt32.ofNat (4 * k))).toNat_lt
    unfold InBlock at hx
    rw [write32_outside _ _ _ _ (by unfold InBlock; omega)]
    exact h.kept x (by unfold InBlock; omega)

/-- The machine at `at` in the code, with `k` of the `n` words copied. -/
structure LoopState (base : UInt32) (tags : List UInt8) (before : UInt32 → UInt8) (n k : ℕ)
    (label : UInt32) (s : State) : Prop where
  pc : s.reg pc = base + label
  r0 : s.reg 0 = base + 0x23C + UInt32.ofNat (4 * k)
  r1 : s.reg 1 = UInt32.ofNat (4 * (n - k) + 8)
  r3 : s.reg 3 = interimDataAddress + UInt32.ofNat (4 * k)
  mem : Copied tags before s.mem k

/-- From start_linux to copy_loop. -/
theorem enter_loop (n : ℕ) (s : State) (hn : tags.length = 4 * n) (hs : s.reg pc = base + 0x1D0)
    (hp : Placed base machId tags zImage s.mem) :
    ∃ s', run 5 s = some s' ∧ LoopState base tags s.mem n 0 0x1E4 s' := by
  have hsize := hp.word 141 (UInt32.ofNat tags.length) rfl
  have hstore := hp.word 136 interimDataAddress rfl
  have hcode := hp.codeAt
  have ha := hp.aligned_at 116
  obtain ⟨s', hexec, h0, h1, h3⟩ : ∃ s', execBlock (startLinux.take 5) s = some s' ∧
      s'.reg 0 = base + 0x23C ∧ s'.reg 1 = UInt32.ofNat tags.length + 8 ∧
      s'.reg 3 = interimDataAddress := by
    have hldr1 := exec_ldr (s.next.set 0 (s.read 15 + 0x60)) 1 15 0x58
      (base + UInt32.ofNat (4 * 141)) (by
        simp [State.read, State.set, State.next, pc, Function.update] at hs ⊢
        rw [hs]
        grind) (hp.aligned_at 141)
    rw [startLinux]
    simp only [List.take_succ_cons, List.take_zero]
    rw [execBlock_cons _ rfl, execBlock_cons _ hldr1, execBlock_cons _ (exec_ldr _ 3 15 0x40
      (base + UInt32.ofNat (4 * 136)) (by
        simp [State.read, State.set, State.next, pc, Function.update] at hs ⊢
        rw [hs]
        grind) (hp.aligned_at 136))]
    refine ⟨_, rfl, ?_⟩
    simp [State.set, State.next, State.read, pc, Function.update] at hs hsize hstore ⊢
    rw [hs, hsize, hstore]
    grind
  obtain ⟨hrun, hmem, hpc⟩ := run_block (startLinux.take 5) (startLinux.drop 5) s s'
    (by rw [hs, List.take_append_drop]; exact hcode) (by rw [hs]; exact ha) (by decide) hexec
  refine ⟨s', hrun, ?_, ?_, ?_, ?_, ?_⟩
  · rw [hpc, hs]
    have : UInt32.ofNat (4 * (startLinux.take 5).length) = 20 := rfl
    rw [this]
    grind
  · rw [h0]
    simp
  · rw [h1, hn]
    simp
  · rw [h3]
    simp
  · rw [hmem]
    exact Copied.start tags s.mem

/-- The code as it lies in memory while the copy is under way. -/
theorem LoopState.codeAt {n k : ℕ} {label : UInt32} {s : State}
    (h : LoopState base tags before n k label s) (hk : 4 * k ≤ tags.length)
    (hp : Placed base machId tags zImage before) (i : ℕ)
    (hlabel : label = UInt32.ofNat (4 * (116 + i))) :
    CodeAt s.mem (s.reg ArmCore.pc) (startLinux.drop i) ∧
      (s.reg ArmCore.pc).toNat % 4 = 0 := by
  have hplaced := h.mem.placed hk hp
  rw [h.pc, hlabel]
  refine ⟨?_, hplaced.aligned_at (116 + i)⟩
  have hdrop := hplaced.codeAt.drop i
  rwa [show (0x1D0 : UInt32) = UInt32.ofNat (4 * 116) from rfl, UInt32.add_assoc,
    ← UInt32.ofNat_add, ← Nat.mul_add] at hdrop

/-- The load and the store of one pass. -/
theorem copy_word {n k : ℕ} {s : State} (h : LoopState base tags before n k 0x1E4 s)
    (hn : tags.length = 4 * n) (hk : k < n) (hlen : tags.length ≤ bufferSize)
    (hp : Placed base machId tags zImage before) :
    ∃ s', run 2 s = some s' ∧ s'.reg pc = base + 0x1EC ∧ Copied tags before s'.mem (k + 1) ∧
      s'.reg 0 = s.reg 0 ∧ s'.reg 1 = s.reg 1 ∧ s'.reg 3 = s.reg 3 := by
  obtain ⟨hcode, ha⟩ := h.codeAt (by omega) hp 5 rfl
  have hpc := h.pc
  have hr0 := h.r0
  have hr3 := h.r3
  have hsource : (base + 0x23C + UInt32.ofNat (4 * k)).toNat % 4 = 0 :=
    aligned_add _ (4 * k) (hp.aligned_at 143) (by omega)
  have hdest : (interimDataAddress + UInt32.ofNat (4 * k)).toNat % 4 = 0 :=
    aligned_add _ (4 * k) (by decide) (by omega)
  have hldr : exec s (.ldr 4 0 0) = some _ :=
    exec_ldr s 4 0 0 _ (by simp [State.read, pc, hr0]) hsource
  obtain ⟨hrun, hmem, hpc1⟩ := run_block [.ldr 4 0 0] (startLinux.drop 6) s _ hcode ha
    (by decide) ((execBlock_cons [] hldr).trans rfl)
  have hstr := exec_str (s.next.set 4 (read32 s.mem (base + 0x23C + UInt32.ofNat (4 * k)))) 4 3 0
    _ (by simp [State.read, State.set, State.next, pc, Function.update, hr3]) hdest
  have hstep := step_of_codeAt
    (s.next.set 4 (read32 s.mem (base + 0x23C + UInt32.ofNat (4 * k)))) (.str 4 3 0)
    (startLinux.drop 7) (by rw [hpc1, hmem]; exact hcode.drop 1) (by
      rw [hpc1]
      exact aligned_add _ 4 ha (by decide))
  refine ⟨_, run_trans hrun (run_one (hstep.trans hstr)), ?_, ?_, ?_⟩
  · simp [State.set, State.next, pc, Function.update] at hpc ⊢
    rw [hpc]
    grind
  · have hnext := h.mem.next (by omega) hlen hp
    simpa [State.set, State.next, State.read, pc, Function.update] using hnext
  · simp [State.set, State.next, pc, Function.update]

/-- The counters of one pass and the branch. -/
theorem loop_pass {n k : ℕ} {s : State} (h : LoopState base tags before n k 0x1E4 s)
    (hn : tags.length = 4 * n) (hk : k < n) (hlen : tags.length ≤ bufferSize)
    (hp : Placed base machId tags zImage before) :
    ∃ s', run 7 s = some s' ∧
      LoopState base tags before n (k + 1) (if k + 1 < n then 0x1E4 else 0x200) s' := by
  have hbuf : bufferSize = 1024 := rfl
  obtain ⟨t, ht, htpc, htmem, ht0, ht1, ht3⟩ := copy_word h hn hk hlen hp
  have hplaced := htmem.placed (by omega) hp
  have hcode := hplaced.codeAt.drop 7
  rw [show base + 0x1D0 + UInt32.ofNat (4 * 7) = t.reg pc by
    rw [htpc, show UInt32.ofNat (4 * 7) = 28 from rfl]; grind] at hcode
  have ha : (t.reg pc).toNat % 4 = 0 := by
    rw [htpc]
    exact hplaced.aligned_at 123
  obtain ⟨u, hu, hu0, hu1, hu3, huflags⟩ :
      ∃ u, execBlock [.subImm 1 1 4, .addImm 0 0 4, .addImm 3 3 4, .cmpImm 1 8] t = some u ∧
        u.reg 0 = t.reg 0 + 4 ∧ u.reg 1 = t.reg 1 - 4 ∧ u.reg 3 = t.reg 3 + 4 ∧
        u.flags = compareFlags (t.reg 1 - 4) 8 := by
    refine ⟨_, rfl, ?_⟩
    simp [State.set, State.next, State.read, pc, Function.update]
  obtain ⟨hrun, humem, hupc⟩ := run_block [.subImm 1 1 4, .addImm 0 0 4, .addImm 3 3 4, .cmpImm 1 8]
    (startLinux.drop 11) t u hcode ha (by decide) hu
  rw [htpc, show UInt32.ofNat (4 * [Instr.subImm 1 1 4, .addImm 0 0 4, .addImm 3 3 4,
    .cmpImm 1 8].length) = 16 from rfl] at hupc
  have hstep := step_of_codeAt u (.b .gt (0 - 32)) (startLinux.drop 12) (by
    rw [humem, hupc]
    have := hplaced.codeAt.drop 11
    rwa [show base + 0x1D0 + UInt32.ofNat (4 * 11) = base + 0x1EC + 16 by
      rw [show UInt32.ofNat (4 * 11) = 44 from rfl]; grind] at this) (by
    rw [hupc]
    have := hplaced.aligned_at 127
    rwa [show base + UInt32.ofNat (4 * 127) = base + 0x1EC + 16 by
      rw [show UInt32.ofNat (4 * 127) = 508 from rfl]; grind] at this)
  -- the count stays eight above what is left, so the branch compares it with eight
  have hcount : t.reg 1 - 4 = UInt32.ofNat (4 * (n - (k + 1)) + 8) := by
    rw [ht1, h.r1, show 4 * (n - k) + 8 = 4 * (n - (k + 1)) + 8 + 4 by omega, UInt32.ofNat_add _ 4,
      show UInt32.ofNat 4 = 4 from rfl]
    grind
  have hnat : (UInt32.ofNat (4 * (n - (k + 1)) + 8)).toNat = 4 * (n - (k + 1)) + 8 := by
    rw [UInt32.toNat_ofNat']
    omega
  have hholds := holds_gt_iff u (t.reg 1 - 4) 8 huflags
    (by rw [hcount, hnat]; omega) (by decide)
  rw [hcount, hnat] at hholds
  obtain ⟨v, hv, hvmem, hvpc, hvreg⟩ := exec_b u .gt (0 - 32)
  refine ⟨v, run_trans ht (run_trans hrun (run_one (hstep.trans hv))), ?_, ?_, ?_, ?_, ?_⟩
  · rw [hvpc, hholds, hupc]
    by_cases hmore : k + 1 < n
    · rw [if_pos hmore, if_pos (by
        rw [decide_eq_true_eq, show (8 : UInt32).toNat = 8 from rfl]; omega)]
      grind
    · rw [if_neg hmore, if_neg (by
        rw [decide_eq_true_eq, show (8 : UInt32).toNat = 8 from rfl]; omega)]
      grind
  · rw [hvreg 0 (by decide), hu0, ht0, h.r0, Nat.mul_add, UInt32.ofNat_add,
      show UInt32.ofNat (4 * 1) = 4 from rfl]
    grind
  · rw [hvreg 1 (by decide), hu1, hcount]
  · rw [hvreg 3 (by decide), hu3, ht3, h.r3, Nat.mul_add, UInt32.ofNat_add,
      show UInt32.ofNat (4 * 1) = 4 from rfl]
    grind
  · rw [hvmem, humem]
    exact htmem

/-- The loop ends with the whole list copied. -/
theorem loop_run {n k : ℕ} {s : State} (h : LoopState base tags before n k 0x1E4 s)
    (hn : tags.length = 4 * n) (hk : k < n) (hlen : tags.length ≤ bufferSize)
    (hp : Placed base machId tags zImage before) :
    ∃ steps s', run steps s = some s' ∧ LoopState base tags before n n 0x200 s' := by
  obtain ⟨left, hleft⟩ := Nat.exists_eq_add_of_lt hk
  induction left generalizing k s with
  | zero =>
    obtain ⟨t, ht, hstate⟩ := loop_pass h hn hk hlen hp
    rw [if_neg (by omega), show k + 1 = n by omega] at hstate
    exact ⟨7, t, ht, hstate⟩
  | succ left ih =>
    obtain ⟨t, ht, hstate⟩ := loop_pass h hn hk hlen hp
    rw [if_pos (by omega)] at hstate
    obtain ⟨steps, u, hu, hdone⟩ := ih hstate (by omega) (by omega)
    exact ⟨7 + steps, u, run_trans ht hu, hdone⟩

/-- The registers the kernel expects, at the jump to it. -/
structure AtJump (base machId : UInt32) (tlen : ℕ) (s : State) : Prop where
  jump : fetch s = some (.bx 3)
  r0 : s.reg 0 = 0
  r1 : s.reg 1 = machId
  r2 : s.reg 2 = interimDataAddress
  r3 : s.reg 3 = base + 0x23C + UInt32.ofNat tlen

/-- From the end of the loop to the jump. -/
theorem leave_loop {n : ℕ} {s : State} (h : LoopState base tags before n n 0x200 s)
    (hn : tags.length = 4 * n) (hp : Placed base machId tags zImage before) :
    ∃ s', run 7 s = some s' ∧ AtJump base machId tags.length s' ∧ s'.mem = s.mem := by
  obtain ⟨hcode, ha⟩ := h.codeAt (by omega) hp 12 rfl
  have hplaced := h.mem.placed (by omega) hp
  have hmach := hplaced.word 140 machId rfl
  have hsize := hplaced.word 141 (UInt32.ofNat tags.length) rfl
  have hstore := hplaced.word 136 interimDataAddress rfl
  have hs := h.pc
  obtain ⟨s', hexec, h0, h1, h2, h3⟩ :
      ∃ s', execBlock [.ldr 1 15 0x28, .addImm 4 15 0x2C, .ldr 5 15 0x24, .addReg 3 4 5,
          .addImm 3 3 4, .ldr 2 15 0x04, .movImm 0 0] s = some s' ∧
        s'.reg 0 = 0 ∧ s'.reg 1 = machId ∧ s'.reg 2 = interimDataAddress ∧
        s'.reg 3 = base + 0x23C + UInt32.ofNat tags.length := by
    rw [execBlock_cons _ (exec_ldr s 1 15 0x28 (base + UInt32.ofNat (4 * 140)) (by
        simp [State.read, pc] at hs ⊢
        rw [hs]
        grind) (hplaced.aligned_at 140)),
      execBlock_cons _ rfl,
      execBlock_cons _ (exec_ldr _ 5 15 0x24 (base + UInt32.ofNat (4 * 141)) (by
        simp [State.read, State.set, State.next, pc, Function.update] at hs ⊢
        rw [hs]
        grind) (hplaced.aligned_at 141)),
      execBlock_cons _ rfl, execBlock_cons _ rfl,
      execBlock_cons _ (exec_ldr _ 2 15 0x04 (base + UInt32.ofNat (4 * 136)) (by
        simp [State.read, State.set, State.next, pc, Function.update] at hs ⊢
        rw [hs]
        grind) (hplaced.aligned_at 136))]
    refine ⟨_, rfl, ?_⟩
    simp [State.set, State.next, State.read, pc, Function.update] at hs hmach hsize hstore ⊢
    rw [hs, hmach, hsize, hstore]
    grind
  obtain ⟨hrun, hmem, hpc⟩ := run_block [.ldr 1 15 0x28, .addImm 4 15 0x2C, .ldr 5 15 0x24,
    .addReg 3 4 5, .addImm 3 3 4, .ldr 2 15 0x04, .movImm 0 0] [.bx 3] s s' hcode ha (by decide)
    hexec
  refine ⟨s', hrun, ⟨?_, h0, h1, h2, h3⟩, hmem⟩
  have hjump := hplaced.codeAt 19 (.bx 3) rfl
  rw [hs] at hpc
  have hat : s'.reg pc = base + UInt32.ofNat (4 * 135) := by
    rw [hpc, show UInt32.ofNat (4 * 135) = 540 from rfl]
    simp
    grind
  rw [show base + 0x1D0 + UInt32.ofNat (4 * 19) = s'.reg pc by
    rw [hat, show UInt32.ofNat (4 * 19) = 76 from rfl]; grind] at hjump
  rw [fetch, if_pos (by rw [hat]; exact hplaced.aligned_at 135), hmem]
  exact hjump

end Image

/-! ### The hand-off -/

/-- tagger writes the image of any board whose tag list fits, and run from start_linux
on it the code copies the list to the interim data address, changes nothing else, and
reaches the jump to the zImage with the registers set for the kernel. -/
theorem hand_off (b : Board) (buffer out : Memory) (tlen : ℕ) (zImage : List UInt8)
    (base : UInt32) (s : State) (hgen : generateTag buffer b = some (out, tlen))
    (haligned : base.toNat % 4 = 0)
    (hloaded : Loaded s.mem base (imageBytes styWords b.machId (readBytes out 0 tlen) zImage))
    (hapart : ∀ i, i < (imageBytes styWords b.machId (readBytes out 0 tlen) zImage).length →
      ¬ InBlock interimDataAddress tlen (base + UInt32.ofNat i))
    (hstart : s.reg pc = base + 0x1D0) :
    (zImage.length < 2 ^ 31 →
      stored (taggerBuild b (completeEnv buffer tlen styWords zImage)).log =
        imageBytes styWords b.machId (readBytes out 0 tlen) zImage) ∧
    ∃ steps s', run steps s = some s' ∧ AtJump base b.machId tlen s' ∧
      (∀ j, j < tlen → s'.mem (interimDataAddress + UInt32.ofNat j) = out j) ∧
      (∀ x, ¬ InBlock interimDataAddress tlen x → s'.mem x = s.mem x) ∧
      Loaded s'.mem (s'.reg 3) zImage := by
  have hwords : styWords.length = 143 := rfl
  refine ⟨fun hzImage => (taggerBuild_complete b buffer out tlen styWords zImage hgen
    (by omega) hzImage).2, ?_⟩
  obtain ⟨⟨n, hn⟩, hlow, hhigh⟩ := TagWalk.generateTag_length b buffer out tlen hgen
  have hlen : (readBytes out 0 tlen).length = tlen := readBytes_length out 0 tlen
  have hp : Placed base b.machId (readBytes out 0 tlen) zImage s.mem :=
    ⟨haligned, hloaded, by rw [hlen]; exact hapart⟩
  have hcount : 0 < n := by
    have hheader : tagHeader.size = 8 := rfl
    omega
  obtain ⟨t, ht, hloop⟩ := enter_loop n s (hlen.trans hn) hstart hp
  obtain ⟨steps, u, hu, hdone⟩ := loop_run hloop (hlen.trans hn) hcount
    (by rw [hlen]; exact hhigh) hp
  obtain ⟨v, hv, hjump, hmem⟩ := leave_loop hdone (hlen.trans hn) hp
  rw [hlen] at hjump
  refine ⟨5 + (steps + 7), v, run_trans ht (run_trans hu hv), hjump, ?_, ?_, ?_⟩
  · intro j hj
    rw [hmem, hdone.mem.copied j (by omega) (by omega), getElem_readBytes, Nat.zero_add]
  · intro x hx
    rw [hmem]
    exact hdone.mem.kept x (by rwa [← hn])
  · have hkernel := (hdone.mem.placed (by omega) hp).loaded_zImage
    rw [hlen] at hkernel
    rw [hmem, hjump.r3]
    exact hkernel

/-- Memory that holds the bytes from `base` on and zeros elsewhere. -/
def imageAt (base : UInt32) (bytes : List UInt8) : UInt32 → UInt8 :=
  fun x => (bytes[(x - base).toNat]?).getD 0

theorem loaded_imageAt (base : UInt32) (bytes : List UInt8) (h : bytes.length ≤ 2 ^ 32) :
    Loaded (imageAt base bytes) base bytes := by
  intro i hi
  rw [imageAt, add_ofNat_sub base i (by omega), List.getElem?_eq_getElem hi]
  rfl

/-- A board of zeros, for which the list is ATAG_CORE and ATAG_NONE. -/
def bareTags : Memory × ℕ := (generateTag (fun _ => 0) fun _ => 0).getD (fun _ => 0, 0)

def bareImage : List UInt8 := imageBytes styWords 0 (readBytes bareTags.1 0 bareTags.2) [1, 2, 3]

def bareStart : State where
  reg := Function.update (fun _ => 0) pc 0x802001D0
  flags := ⟨false, false, false, false⟩
  mem := imageAt 0x80200000 bareImage

theorem hand_off_bare :
    stored (taggerBuild (fun _ => 0) (completeEnv (fun _ => 0) 28 styWords [1, 2, 3])).log =
      bareImage ∧
    ∃ steps s', run steps bareStart = some s' ∧ AtJump 0x80200000 0 28 s' ∧
      (∀ j, j < 28 → s'.mem (interimDataAddress + UInt32.ofNat j) = bareTags.1 j) ∧
      (∀ x, ¬ InBlock interimDataAddress 28 x → s'.mem x = bareStart.mem x) ∧
      Loaded s'.mem (s'.reg 3) [1, 2, 3] := by
  obtain ⟨hwritten, hrun⟩ := hand_off (fun _ => 0) (fun _ => 0) bareTags.1 28 [1, 2, 3] 0x80200000
    bareStart (by rfl) (by decide) (loaded_imageAt 0x80200000 bareImage (by decide +kernel))
    (by decide +kernel) (by rfl)
  exact ⟨hwritten (by decide), hrun⟩

end OmapBootUtils.StyLoader
