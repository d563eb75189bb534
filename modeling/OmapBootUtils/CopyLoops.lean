import OmapBootUtils.GpsignImage
import OmapBootUtils.TaggerImage
import Mathlib.Data.List.TakeDrop

/-!
The copy loops of the image builders, call by call. What a loop delivers and
stores is split into its freads and fwrites; a loop over a file of the length
stat reported copies it exactly if every fread delivers its item and every
fwrite takes the whole of what it is handed.
-/
namespace OmapBootUtils.CopyLoops

open ByteMemory ScriptedRun ImageCalls GpsignImage TaggerImage

/-! ### Reads and writes of a log -/

/-- What an fread of an item of `size` bytes delivered. -/
def ImageCall.delivered (size : ℕ) : ImageCall → Option (List UInt8)
  | .fread itemSize data => if itemSize = size then some data else none
  | _ => none

/-- What an fwrite stored. -/
def ImageCall.written : ImageCall → Option (List UInt8)
  | .fwrite data accepted => some (data.take accepted)
  | _ => none

def reads (size : ℕ) (log : List ImageCall) : List (List UInt8) :=
  log.filterMap (ImageCall.delivered size)

def writes (log : List ImageCall) : List (List UInt8) := log.filterMap ImageCall.written

@[simp] theorem reads_append (size : ℕ) (l m : List ImageCall) :
    reads size (l ++ m) = reads size l ++ reads size m := List.filterMap_append

@[simp] theorem writes_append (l m : List ImageCall) : writes (l ++ m) = writes l ++ writes m :=
  List.filterMap_append

@[simp] theorem reads_nil (size : ℕ) : reads size [] = [] := rfl

@[simp] theorem writes_nil : writes [] = [] := rfl

@[simp] theorem reads_cons (size : ℕ) (call : ImageCall) (log : List ImageCall) :
    reads size (call :: log) = (ImageCall.delivered size call).toList ++ reads size log := by
  cases h : ImageCall.delivered size call <;> simp [reads, h]

@[simp] theorem writes_cons (call : ImageCall) (log : List ImageCall) :
    writes (call :: log) = (ImageCall.written call).toList ++ writes log := by
  cases h : ImageCall.written call <;> simp [writes, h]

/-- The output file holds what the fwrites stored, in order. -/
theorem stored_eq_writes (log : List ImageCall) : stored log = (writes log).flatten := by
  induction log with
  | nil => rfl
  | cons call log ih =>
    rw [writes_cons, List.flatten_append, ← ih, stored, List.flatMap_cons, ← stored]
    cases call <;> simp [ImageCall.stored, ImageCall.written]

/-- What holds of every item a loop takes from position `i` on holds of the first and
of every later one. -/
theorem forall_taken_cons_iff {ι : Type} (p : ℕ → ι → Prop) (item : ι) (items : List ι) (i n : ℕ)
    (h : i < n) :
    (∀ k x, (item :: items)[k]? = some x → i + k < n → p (i + k) x) ↔
      p i item ∧ ∀ k x, items[k]? = some x → i + 1 + k < n → p (i + 1 + k) x := by
  constructor
  · intro hall
    refine ⟨hall 0 item rfl h, fun k x hk hlt => ?_⟩
    have := hall (k + 1) x (by simpa using hk) (by omega)
    rwa [← Nat.add_assoc, Nat.add_right_comm] at this
  · rintro ⟨hfirst, hothers⟩ k x hk hlt
    cases k with
    | zero =>
      obtain rfl : item = x := by simpa using hk
      exact hfirst
    | succ k =>
      have := hothers k x (by simpa using hk) (by omega)
      rwa [Nat.add_right_comm, Nat.add_assoc] at this

/-! ### The input file, byte by byte -/

/-- The pieces of the image that copy the bytes from position `i` on. -/
def inputPieces (opts : GpsignOptions) : ℕ → List UInt8 → List (List UInt8)
  | _, [] => []
  | i, b :: bytes =>
      (if padBefore opts i then [List.replicate pagePadSize 0xFF] else []) ++
        [b] :: inputPieces opts (i + 1) bytes

/-- The fread delivers its byte, and what is written for it is taken in full. -/
structure PassCopies (opts : GpsignOptions) (i : ℕ) (pass : Pass) : Prop where
  delivers : pass.data ≠ []
  byte : 1 ≤ pass.accepted
  padding : padBefore opts i = true → pagePadSize ≤ pass.padAccepted

def passCalls (opts : GpsignOptions) (i : ℕ) (pass : Pass) (ch : UInt8) : List ImageCall :=
  .fread 1 (pass.data.take 1) ::
    ((if padBefore opts i then [.fwrite (List.replicate pagePadSize 0xFF) pass.padAccepted]
      else []) ++ [.fwrite [pass.data.headD ch] pass.accepted])

section InputLoop

variable (opts : GpsignOptions) (len : ℕ)

theorem inputLoop_end (passes : List Pass) (i : ℕ) (ch : UInt8) (h : ¬ i < len) :
    inputLoop opts len passes i ch = pure () := by
  cases passes <;> simp [inputLoop, h]

theorem inputLoop_pass (pass : Pass) (passes : List Pass) (i : ℕ) (ch : UInt8) (h : i < len)
    (hint : i + 1 < 2 ^ 31) :
    inputLoop opts len (pass :: passes) i ch =
      Run.after (passCalls opts i pass ch)
        (inputLoop opts len passes (i + 1) (pass.data.headD ch)) := by
  rw [inputLoop, if_pos h, increment_eq i hint]
  cases hpad : padBefore opts i <;> simp [passCalls, hpad]

/-- An input file that an int can count is copied to its end. -/
theorem inputLoop_status (passes : List Pass) (i : ℕ) (ch : UInt8) (hint : len < 2 ^ 31)
    (hscript : len ≤ i + passes.length) :
    (inputLoop opts len passes i ch).status = .done () := by
  induction passes generalizing i ch with
  | nil => rw [inputLoop_end opts len [] i ch (by simpa using hscript), Run.pure_status]
  | cons pass passes ih =>
    rw [List.length_cons] at hscript
    by_cases h : i < len
    · rw [inputLoop_pass opts len pass passes i ch h (by omega), Run.after_status]
      exact ih (i + 1) _ (by omega)
    · rw [inputLoop_end opts len _ i ch h, Run.pure_status]

/-- The counter overflows before the end of a larger one. -/
theorem inputLoop_overflow (passes : List Pass) (i : ℕ) (ch : UInt8) (hlen : 2 ^ 31 ≤ len)
    (hi : i < 2 ^ 31) : (inputLoop opts len passes i ch).status ≠ .done () := by
  induction passes generalizing i ch with
  | nil => simp [inputLoop, show i < len by omega]
  | cons pass passes ih =>
    by_cases hint : i + 1 < 2 ^ 31
    · rw [inputLoop_pass opts len pass passes i ch (by omega) hint, Run.after_status]
      exact ih (i + 1) _ hint
    · obtain rfl : i = 2 ^ 31 - 1 := by omega
      rw [inputLoop, if_pos (by omega)]
      cases padBefore opts (2 ^ 31 - 1) <;> simp [increment]

theorem writes_passCalls (i : ℕ) (pass : Pass) (ch : UInt8) :
    writes (passCalls opts i pass ch) =
      (if padBefore opts i then [(List.replicate pagePadSize 0xFF).take pass.padAccepted]
        else []) ++ [[pass.data.headD ch].take pass.accepted] := by
  rw [passCalls, writes_cons, writes_append]
  cases padBefore opts i <;> rfl

theorem reads_passCalls (i : ℕ) (pass : Pass) (ch : UInt8) :
    reads 1 (passCalls opts i pass ch) = [pass.data.take 1] := by
  rw [passCalls, reads_cons, reads_append]
  cases padBefore opts i <;> rfl

/-- One pass stores the pieces of its byte exactly if what it writes is taken in full. -/
theorem passCalls_copies_iff (i : ℕ) (pass : Pass) (ch b : UInt8) (bytes : List UInt8)
    (rest : List (List UInt8)) (hdata : pass.data.head? = some b) :
    writes (passCalls opts i pass ch) ++ rest = inputPieces opts i (b :: bytes) ↔
      PassCopies opts i pass ∧ rest = inputPieces opts (i + 1) bytes := by
  have hne : pass.data ≠ [] := by
    rintro hnil
    simp [hnil] at hdata
  have hhead : pass.data.headD ch = b := by
    rw [List.headD_eq_head?_getD, hdata, Option.getD_some]
  have hbyte : [b].take pass.accepted = [b] ↔ 1 ≤ pass.accepted :=
    List.take_eq_self_iff [b]
  have hpad : (List.replicate pagePadSize (0xFF : UInt8)).take pass.padAccepted =
      List.replicate pagePadSize 0xFF ↔ pagePadSize ≤ pass.padAccepted := by
    rw [List.take_eq_self_iff, List.length_replicate]
  rw [writes_passCalls, hhead, inputPieces]
  cases h : padBefore opts i with
  | false =>
    simp only [Bool.false_eq_true, if_false, List.nil_append, List.cons_append, List.cons.injEq,
      hbyte]
    refine and_congr_left fun _ => ⟨fun hacc => ⟨hne, hacc, ?_⟩, fun hcopies => hcopies.byte⟩
    simp [h]
  | true =>
    simp only [if_true, List.cons_append, List.nil_append, List.cons.injEq, hbyte, hpad]
    rw [← and_assoc]
    exact and_congr_left fun _ => ⟨fun ⟨hp, hacc⟩ => ⟨hne, hacc, fun _ => hp⟩,
      fun hcopies => ⟨hcopies.padding h, hcopies.byte⟩⟩

/-- The loop copies the file exactly if stat reported its length and every pass copies
its byte; the freads deliver the file's bytes from `i` on. -/
theorem inputLoop_copies_iff (passes : List Pass) (i : ℕ) (ch : UInt8) (input : List UInt8)
    (hint : len < 2 ^ 31) (hscript : len ≤ i + passes.length)
    (hinput : (passes.take (len - i)).flatMap (fun pass => pass.data.take 1) <+: input) :
    (reads 1 (inputLoop opts len passes i ch).log = input.map ([·]) ∧
        writes (inputLoop opts len passes i ch).log = inputPieces opts i input) ↔
      len - i = input.length ∧
        ∀ k pass, passes[k]? = some pass → i + k < len → PassCopies opts (i + k) pass := by
  induction passes generalizing i ch input with
  | nil =>
    have hend : ¬ i < len := by simpa using hscript
    rw [inputLoop_end opts len [] i ch hend]
    cases input with
    | nil => simp [inputPieces, show len - i = 0 by omega]
    | cons b input => simp [show len - i = 0 by omega]
  | cons pass passes ih =>
    rw [List.length_cons] at hscript
    by_cases h : i < len
    · have hsub : len - i = (len - (i + 1)) + 1 := by omega
      rw [hsub, List.take_succ_cons, List.flatMap_cons] at hinput
      rw [inputLoop_pass opts len pass passes i ch h (by omega), Run.after_log, reads_append,
        writes_append, reads_passCalls, List.singleton_append]
      cases hdata : pass.data with
      | nil =>
        refine iff_of_false ?_ ?_
        · rintro ⟨hreads, _⟩
          cases input <;> simp at hreads
        · rintro ⟨_, hall⟩
          exact (hall 0 pass rfl h).delivers hdata
      | cons d data =>
        rw [hdata] at hinput
        obtain ⟨rest, rfl⟩ := hinput
        have hhead : pass.data.head? = some d := by rw [hdata]; rfl
        have hrest := ih (i + 1) (pass.data.headD ch)
          ((passes.take (len - (i + 1))).flatMap (fun pass => pass.data.take 1) ++ rest)
          (by omega) ⟨rest, rfl⟩
        simp only [List.take_succ_cons, List.take_zero, List.cons_append, List.nil_append,
          List.map_cons, List.cons.injEq, true_and, List.length_cons,
          passCalls_copies_iff opts i pass ch d _ _ hhead]
        rw [and_left_comm, ← hdata, hrest, hsub, Nat.add_left_inj, and_left_comm,
          forall_taken_cons_iff (PassCopies opts) pass passes i len h]
    · rw [inputLoop_end opts len _ i ch h]
      have hzero : len - i = 0 := by omega
      cases input with
      | nil =>
        simp only [hzero, List.length_nil, Run.pure_log, reads_nil, writes_nil, List.map_nil,
          inputPieces, true_and, true_iff, and_self]
        intro k p _ hlt
        omega
      | cons b input => simp [hzero]

/-- The loop reads single bytes only. -/
theorem inputLoop_reads (passes : List Pass) (i : ℕ) (ch : UInt8) (hint : len < 2 ^ 31) :
    reads 4 (inputLoop opts len passes i ch).log = [] := by
  induction passes generalizing i ch with
  | nil =>
    rw [inputLoop]
    split <;> simp
  | cons pass passes ih =>
    by_cases h : i < len
    · rw [inputLoop_pass opts len pass passes i ch h (by omega), Run.after_log, reads_append,
        ih (i + 1), passCalls]
      cases padBefore opts i <;> simp [ImageCall.delivered]
    · simp [inputLoop_end opts len _ i ch h]

end InputLoop

/-! ### The zImage -/

/-- The pass of gpsign that a pass over the zImage is, without padding. -/
def zImagePass (item : List UInt8 × ℕ) : Pass := ⟨item.1, 0, item.2⟩

def withoutPadding : GpsignOptions := ⟨0, false⟩

@[simp] theorem padBefore_withoutPadding (i : ℕ) : padBefore withoutPadding i = false := rfl

/-- The loop over the zImage is that of gpsign without its padding. -/
theorem zImageLoop_eq (len : ℕ) (items : List (List UInt8 × ℕ)) (i : ℕ) (ch : UInt8) :
    zImageLoop len items i ch = inputLoop withoutPadding len (items.map zImagePass) i ch := by
  induction items generalizing i ch with
  | nil => rfl
  | cons item items ih => simp [zImageLoop, inputLoop, zImagePass, ih]

theorem zImageLoop_status (len : ℕ) (items : List (List UInt8 × ℕ)) (ch : UInt8)
    (hint : len < 2 ^ 31) (hscript : len ≤ items.length) :
    (zImageLoop len items 0 ch).status = .done () := by
  rw [zImageLoop_eq]
  exact inputLoop_status withoutPadding len _ 0 ch hint (by simpa using hscript)

theorem zImageLoop_overflow (len : ℕ) (items : List (List UInt8 × ℕ)) (ch : UInt8)
    (hlen : 2 ^ 31 ≤ len) : (zImageLoop len items 0 ch).status ≠ .done () := by
  rw [zImageLoop_eq]
  exact inputLoop_overflow withoutPadding len _ 0 ch hlen (by omega)

theorem zImageLoop_reads (len : ℕ) (items : List (List UInt8 × ℕ)) (ch : UInt8)
    (hint : len < 2 ^ 31) : reads 4 (zImageLoop len items 0 ch).log = [] := by
  rw [zImageLoop_eq]
  exact inputLoop_reads withoutPadding len _ 0 ch hint

theorem inputPieces_withoutPadding (i : ℕ) (bytes : List UInt8) :
    inputPieces withoutPadding i bytes = bytes.map ([·]) := by
  induction bytes generalizing i with
  | nil => rfl
  | cons b bytes ih => simp [inputPieces, ih]

theorem zImagePass_copies_iff (i : ℕ) (item : List UInt8 × ℕ) :
    PassCopies withoutPadding i (zImagePass item) ↔ item.1 ≠ [] ∧ 1 ≤ item.2 :=
  ⟨fun h => ⟨h.delivers, h.byte⟩, fun h => ⟨h.1, h.2, by simp⟩⟩

/-- The loop copies the zImage exactly if stat reported its length and every pass
copies its byte. -/
theorem zImageLoop_copies_iff (len : ℕ) (items : List (List UInt8 × ℕ)) (ch : UInt8)
    (zImage : List UInt8) (hint : len < 2 ^ 31) (hscript : len ≤ items.length)
    (hinput : (items.take len).flatMap (fun item => item.1.take 1) <+: zImage) :
    (reads 1 (zImageLoop len items 0 ch).log = zImage.map ([·]) ∧
        writes (zImageLoop len items 0 ch).log = zImage.map ([·])) ↔
      len = zImage.length ∧
        ∀ k item, items[k]? = some item → k < len → item.1 ≠ [] ∧ 1 ≤ item.2 := by
  have hcopies := inputLoop_copies_iff withoutPadding len (items.map zImagePass) 0 ch zImage hint
    (by simpa using hscript) (by simpa [← List.map_take, List.flatMap_map, zImagePass] using hinput)
  rw [zImageLoop_eq]
  rw [inputPieces_withoutPadding, Nat.sub_zero] at hcopies
  rw [hcopies]
  refine and_congr_right fun _ => ⟨fun hall k item hk hlt => ?_, fun hall k pass hk hlt => ?_⟩
  · exact (zImagePass_copies_iff _ item).mp (hall k _ (by simp [hk]) (by omega))
  · rw [List.getElem?_map] at hk
    obtain ⟨item, hitem, rfl⟩ := Option.map_eq_some_iff.mp hk
    exact (zImagePass_copies_iff _ item).mpr (hall k item hitem (by omega))

/-! ### The sty file, word by word -/

/-- The fread delivers its word, and the word written for it is taken in full. -/
def WordCopies (item : List UInt8 × ℕ) : Prop := 4 ≤ item.1.length ∧ 4 ≤ item.2

section StyLoop

variable (machId tlen : UInt32) (len : ℕ)

/-- The word an item of the sty file is written as. -/
def patchedBytes (w : UInt32) : List UInt8 := u32Bytes (patchWord machId tlen w)

def deliveredWord (data : List UInt8) : UInt32 := UInt32.ofNat (leNat (data.take 4))

theorem styLoop_end (items : List (List UInt8 × ℕ)) (i : ℕ) (h : ¬ i < len / 4) :
    styLoop machId tlen len items i = pure () := by
  cases items <;> simp [styLoop, h]

theorem styLoop_item (item : List UInt8 × ℕ) (items : List (List UInt8 × ℕ)) (i : ℕ)
    (h : i < len / 4) (hint : i + 1 < 2 ^ 31) :
    styLoop machId tlen len (item :: items) i =
      Run.after [.fread 4 (item.1.take 4),
          .fwrite (patchedBytes machId tlen (deliveredWord item.1)) item.2]
        (styLoop machId tlen len items (i + 1)) := by
  rw [styLoop, if_pos h, increment_eq i hint]
  simp [patchedBytes, deliveredWord]

theorem styLoop_status (items : List (List UInt8 × ℕ)) (i : ℕ) (hint : len / 4 < 2 ^ 31)
    (hscript : len / 4 ≤ i + items.length) :
    (styLoop machId tlen len items i).status = .done () := by
  induction items generalizing i with
  | nil => rw [styLoop_end machId tlen len [] i (by simpa using hscript), Run.pure_status]
  | cons item items ih =>
    rw [List.length_cons] at hscript
    by_cases h : i < len / 4
    · rw [styLoop_item machId tlen len item items i h (by omega), Run.after_status]
      exact ih (i + 1) (by omega)
    · rw [styLoop_end machId tlen len _ i h, Run.pure_status]

theorem styLoop_overflow (items : List (List UInt8 × ℕ)) (i : ℕ) (hlen : 2 ^ 31 ≤ len / 4)
    (hi : i < 2 ^ 31) : (styLoop machId tlen len items i).status ≠ .done () := by
  induction items generalizing i with
  | nil => simp [styLoop, show i < len / 4 by omega]
  | cons item items ih =>
    by_cases hint : i + 1 < 2 ^ 31
    · rw [styLoop_item machId tlen len item items i (by omega) hint, Run.after_status]
      exact ih (i + 1) hint
    · obtain rfl : i = 2 ^ 31 - 1 := by omega
      rw [styLoop, if_pos (by omega)]
      simp [increment]

/-- Every pass reads one word and writes one. -/
theorem styLoop_reads (items : List (List UInt8 × ℕ)) (i : ℕ) (hint : len / 4 < 2 ^ 31) :
    (reads 4 (styLoop machId tlen len items i).log).length =
        (writes (styLoop machId tlen len items i).log).length ∧
      reads 1 (styLoop machId tlen len items i).log = [] := by
  induction items generalizing i with
  | nil =>
    rw [styLoop]
    split <;> simp
  | cons item items ih =>
    by_cases h : i < len / 4
    · rw [styLoop_item machId tlen len item items i h (by omega), Run.after_log]
      simpa [ImageCall.delivered, ImageCall.written] using ih (i + 1)
    · simp [styLoop_end machId tlen len _ i h]

theorem u32Bytes_injective : Function.Injective u32Bytes := fun v w h => by
  rw [← ofNat_leNat_u32Bytes v, h, ofNat_leNat_u32Bytes]

theorem u32Bytes_deliveredWord (data : List UInt8) (h : 4 ≤ data.length) :
    u32Bytes (deliveredWord data) = data.take 4 := by
  have hlen : (data.take 4).length = 4 := by rw [List.length_take]; omega
  have hlt := leNat_lt (data.take 4)
  rw [hlen] at hlt
  rw [u32Bytes, deliveredWord, UInt32.toNat_ofNat_of_lt' hlt]
  have := leBytes_leNat (data.take 4)
  rwa [hlen] at this

/-- Nothing is left of a sty file of which nothing is read. -/
theorem styWords_nil_iff (sty : List UInt8) :
    (∃ words : List UInt32, sty = words.flatMap u32Bytes ∧ [] = words.map u32Bytes ∧
        [] = words.map (patchedBytes machId tlen)) ↔ 4 * 0 = sty.length := by
  constructor
  · rintro ⟨words, rfl, hreads, _⟩
    obtain rfl : words = [] := by simpa using hreads.symm
    rfl
  · intro hlength
    obtain rfl : sty = [] := by simpa using hlength.symm
    exact ⟨[], rfl, rfl, rfl⟩

/-- The sty file is a word followed by the rest, as it is read and as it is written. -/
theorem styWords_cons_iff (item : List UInt8 × ℕ) (rest : List UInt8)
    (restReads restWrites : List (List UInt8)) (hlen : 4 ≤ item.1.length) :
    (∃ words : List UInt32, item.1.take 4 ++ rest = words.flatMap u32Bytes ∧
        item.1.take 4 :: restReads = words.map u32Bytes ∧
        (patchedBytes machId tlen (deliveredWord item.1)).take item.2 :: restWrites =
          words.map (patchedBytes machId tlen)) ↔
      WordCopies item ∧ ∃ words : List UInt32, rest = words.flatMap u32Bytes ∧
        restReads = words.map u32Bytes ∧ restWrites = words.map (patchedBytes machId tlen) := by
  have htake : (patchedBytes machId tlen (deliveredWord item.1)).take item.2 =
      patchedBytes machId tlen (deliveredWord item.1) ↔ 4 ≤ item.2 := by
    rw [List.take_eq_self_iff, patchedBytes, u32Bytes_length]
  rw [← u32Bytes_deliveredWord item.1 hlen]
  constructor
  · rintro ⟨words, hbytes, hreads, hwrites⟩
    cases words with
    | nil => simp at hreads
    | cons w words =>
      rw [List.map_cons, List.cons.injEq] at hreads hwrites
      obtain rfl : deliveredWord item.1 = w := u32Bytes_injective hreads.1
      rw [List.flatMap_cons, List.append_cancel_left_eq] at hbytes
      exact ⟨⟨hlen, htake.mp hwrites.1⟩, words, hbytes, hreads.2, hwrites.2⟩
  · rintro ⟨hcopies, words, rfl, rfl, rfl⟩
    exact ⟨deliveredWord item.1 :: words, by simp, rfl, by rw [htake.mpr hcopies.2, List.map_cons]⟩

/-- The loop copies the words of the sty file exactly if stat reported as many and
every pass copies its word; the freads deliver the file's bytes from word `i` on. -/
theorem styLoop_copies_iff (items : List (List UInt8 × ℕ)) (i : ℕ) (sty : List UInt8)
    (hint : len / 4 < 2 ^ 31) (hscript : len / 4 ≤ i + items.length)
    (hinput : (items.take (len / 4 - i)).flatMap (fun item => item.1.take 4) <+: sty) :
    (∃ words : List UInt32, sty = words.flatMap u32Bytes ∧
        reads 4 (styLoop machId tlen len items i).log = words.map u32Bytes ∧
        writes (styLoop machId tlen len items i).log = words.map (patchedBytes machId tlen)) ↔
      4 * (len / 4 - i) = sty.length ∧
        ∀ k item, items[k]? = some item → i + k < len / 4 → WordCopies item := by
  induction items generalizing i sty with
  | nil =>
    have hend : ¬ i < len / 4 := by simpa using hscript
    rw [styLoop_end machId tlen len [] i hend, show len / 4 - i = 0 by omega, Run.pure_log,
      reads_nil, writes_nil, styWords_nil_iff]
    exact (and_iff_left fun k _ hk => absurd hk (by simp)).symm
  | cons item items ih =>
    rw [List.length_cons] at hscript
    by_cases h : i < len / 4
    · rw [styLoop_item machId tlen len item items i h (by omega), Run.after_log, reads_append,
        writes_append]
      simp only [reads_cons, writes_cons, ImageCall.delivered, ImageCall.written, if_true,
        Option.toList_some, Option.toList_none, reads_nil, writes_nil, List.append_nil,
        List.nil_append, List.singleton_append]
      by_cases hlen : 4 ≤ item.1.length
      · have hsub : len / 4 - i = (len / 4 - (i + 1)) + 1 := by omega
        rw [hsub, List.take_succ_cons, List.flatMap_cons] at hinput
        obtain ⟨rest, rfl⟩ := hinput
        have hrest := ih (i + 1) _ (by omega) ⟨rest, rfl⟩
        have hfour : (item.1.take 4).length = 4 := by rw [List.length_take]; omega
        rw [List.append_assoc, styWords_cons_iff machId tlen item _ _ _ hlen, hrest, hsub,
          @List.length_append _ (item.1.take 4) _, hfour, and_left_comm,
          forall_taken_cons_iff (fun _ => WordCopies) item items i _ h]
        exact and_congr_left fun _ => by omega
      · refine iff_of_false ?_ fun hall => hlen (hall.2 0 item rfl h).1
        rintro ⟨words, _, hreads, _⟩
        cases words with
        | nil => simp at hreads
        | cons w words =>
          have hfour := congrArg List.length (List.cons.inj hreads).1
          rw [List.length_take, u32Bytes_length] at hfour
          omega
    · rw [styLoop_end machId tlen len _ i h, show len / 4 - i = 0 by omega, Run.pure_log,
        reads_nil, writes_nil, styWords_nil_iff]
      exact (and_iff_left fun k _ _ hlt => absurd hlt (by omega)).symm

end StyLoop

end OmapBootUtils.CopyLoops
