import OmapBootUtils.DrivenLoop
import OmapBootUtils.KermitRounds
import OmapBootUtils.PeripheralSerial
import OmapBootUtils.PeripheralUsb

/-!
Whether the download loops end, with a target that takes everything. Each counts up
to, or down from, a size it was told before it read; a file that delivers less keeps
all three going for ever. Behaviour the language leaves undefined does not count as
an end, and a loop that runs on is one that waits on every part of its outcomes.
-/
namespace OmapBootUtils.LoopEnds

open ScriptedRun LinkCalls DrivenLoop KermitPacket KermitTransfer KermitRounds PeripheralSerial
open PeripheralUsb

/-! ### ukermit -/

section Kermit

variable (signedChar : Bool)

structure TransferState where
  chunk : ℕ
  size : ℕ
  rest : List UInt8

/-- The state after a chunk that was read and acknowledged. -/
def TransferState.next (s : TransferState) (x : Outcome × Attempt) : TransferState :=
  let chunk := readChunk s.size (x.1.getD 0) s.rest
  ⟨s.chunk + 1, s.size - chunk.length, s.rest.drop chunk.length⟩

def TransferEnds (l : List (Outcome × Attempt)) (s : TransferState) : Prop :=
  ∃ a, (transferLoop signedChar (l.map Prod.fst) s.size (sequenceAt s.chunk) s.rest
    (l.map Prod.snd)).status = .done a

theorem transfer_driven : Driven (TransferEnds signedChar)
    (fun s x => GoodAck (s.chunk % 128) x.2.reply) (fun s => s.size = 0)
    (fun x => x.1 ≠ none ∧ x.2.callocOk = true) (fun x => x.2.callocOk = false)
    TransferState.next where
  stopped l s hstop := by
    refine ⟨none, ?_⟩
    rw [hstop, transferLoop_zero]
    rfl
  starved s hstop := by
    rintro ⟨a, ha⟩
    simp [transferLoop, Build.transferLoop, hstop] at ha
  pass := by
    rintro ⟨outcome, a⟩ l s hstop hack
    simp only [TransferEnds, List.map_cons]
    cases outcome with
    | none =>
      rw [transferLoop_failed signedChar _ s.size _ s.rest _ hstop]
      cases ha : a.callocOk <;> simp [failedChunk, ha]
    | some n =>
      cases ha : a.callocOk with
      | false =>
        rw [transferLoop_cons signedChar n _ s.size _ s.rest _ hstop,
          retryLoop_calloc_failed signedChar _ _ 0 a _ ha]
        simp
      | true =>
        rw [← sequenceAt_toNat] at hack
        have hgood := retryLoop_good signedChar (readChunk s.size n s.rest) (sequenceAt s.chunk) 0 a
          (l.map Prod.snd) ha hack (by decide)
        rw [transferLoop_acked signedChar hstop hgood]
        simp [TransferState.next]

theorem transferState_after (xs : Stream' (Outcome × Attempt)) (s : TransferState) (n : ℕ) :
    (stateAfter TransferState.next s xs n).chunk = s.chunk + n ∧
      (stateAfter TransferState.next s xs n).size =
        s.size - delivered maxChunk (min s.size s.rest.length) (xs.map Prod.fst) n := by
  induction n generalizing xs s with
  | zero => simp
  | succ n ih =>
    have hlen : (readChunk s.size (xs.head.1.getD 0) s.rest).length =
        min (min (xs.head.1.getD 0) maxChunk) (min s.size s.rest.length) := by
      rw [readChunk, List.length_take]
      split <;> omega
    obtain ⟨hchunk, hsize⟩ := ih xs.tail (s.next xs.head)
    rw [stateAfter_succ, hchunk, hsize, delivered_succ]
    simp only [TransferState.next, hlen, List.length_drop, Stream'.tail_map, Stream'.head_map]
    refine ⟨by omega, ?_⟩
    rw [← Nat.sub_min_sub_right]
    omega

/-- The loop of k_send_data ends exactly if the reads before some point deliver the
whole size, or a calloc fails before a read has. -/
theorem transferLoop_ends_iff (size : ℕ) (file : List UInt8) (xs : Stream' (Outcome × Attempt))
    (hacks : ∀ n, GoodAck (n % 128) (xs.get n).2.reply) :
    (∃ m a, (transferLoop signedChar ((xs.take m).map Prod.fst) size 0 file
        ((xs.take m).map Prod.snd)).status = .done a) ↔
      ∃ n, (∀ i < n, (xs.get i).1 ≠ none ∧ (xs.get i).2.callocOk = true) ∧
        (size ≤ delivered maxChunk (min size file.length) (xs.map Prod.fst) n ∨
          (xs.get n).2.callocOk = false) := by
  have hafter := transferState_after xs ⟨0, size, file⟩
  have hends := (transfer_driven signedChar).ends_iff xs ⟨0, size, file⟩ fun n => by
    rw [(hafter n).1, Nat.zero_add]
    exact hacks n
  simp only [(hafter _).2, Nat.sub_eq_zero_iff_le] at hends
  exact hends

end Kermit

/-! ### pserial -/

section Pserial

variable (size : ℕ)

structure SendState where
  totRead : ℕ
  rest : List UInt8

def SendState.next (s : SendState) (x : Outcome × Outcome) : SendState :=
  let block := curRead size s.totRead (x.1.getD 0) s.rest
  ⟨s.totRead + block.length, s.rest.drop block.length⟩

def SendEnds (l : List (Outcome × Outcome)) (s : SendState) : Prop :=
  ∃ a, (sendLoop size s.totRead s.rest l).status = .done a

theorem send_driven : Driven (SendEnds size) (fun _ _ => True) (fun s => size ≤ s.totRead)
    (fun x => x.1 ≠ none) (fun x => x.1 = none) (SendState.next size) where
  stopped l s hstop := ⟨(), by rw [sendLoop_finished size s.totRead s.rest l hstop]; rfl⟩
  starved s hstop := by
    rintro ⟨a, ha⟩
    rw [sendLoop_waiting size s.totRead s.rest (Nat.not_le.mp hstop)] at ha
    cases ha
  pass := by
    rintro ⟨outcome, write⟩ l s hstop _
    cases outcome with
    | none =>
      rw [SendEnds, sendLoop_failed size s.totRead s.rest write l (Nat.not_le.mp hstop)]
      exact iff_of_true ⟨(), rfl⟩ (Or.inl rfl)
    | some n =>
      rw [SendEnds, sendLoop_pass size s.totRead n s.rest write l (Nat.not_le.mp hstop)]
      simp [SendEnds, SendState.next]

theorem sendState_after (xs : Stream' (Outcome × Outcome)) (s : SendState) (n : ℕ) :
    (stateAfter (SendState.next size) s xs n).totRead =
      s.totRead + delivered totSize (min (size - s.totRead) s.rest.length) (xs.map Prod.fst) n := by
  induction n generalizing xs s with
  | zero => simp
  | succ n ih =>
    have hlen : (curRead size s.totRead (xs.head.1.getD 0) s.rest).length =
        min (min (xs.head.1.getD 0) totSize) (min (size - s.totRead) s.rest.length) := by
      rw [curRead, toRead, List.length_take]
      split <;> omega
    rw [stateAfter_succ, ih, delivered_succ]
    simp only [SendState.next, hlen, List.length_drop, Stream'.tail_map, Stream'.head_map,
      Nat.sub_add_eq]
    rw [← Nat.sub_min_sub_right]
    omega

/-- The loop of pserial ends exactly if the reads before some point deliver the whole
size, or one of them fails before. -/
theorem sendLoop_ends_iff (file : List UInt8) (xs : Stream' (Outcome × Outcome)) :
    (∃ m a, (sendLoop size 0 file (xs.take m)).status = .done a) ↔
      ∃ n, (∀ i < n, (xs.get i).1 ≠ none) ∧
        (size ≤ delivered totSize (min size file.length) (xs.map Prod.fst) n ∨
          (xs.get n).1 = none) := by
  have hends := (send_driven size).ends_iff xs ⟨0, file⟩ fun _ => trivial
  simp only [sendState_after, Nat.zero_add, Nat.sub_zero] at hends
  exact hends

end Pserial

/-! ### pusb -/

section Pusb

structure PumpState where
  filesize : ℕ
  rest : List UInt8

def PumpState.next (s : PumpState) (x : Outcome × Bulk) : PumpState :=
  let block := s.rest.take (min (x.1.getD 0) readBufferSize)
  ⟨(s.filesize + 2 ^ 32 - block.length) % 2 ^ 32, s.rest.drop block.length⟩

def PumpEnds (l : List (Outcome × Bulk)) (s : PumpState) : Prop :=
  ∃ a, (pumpLoop s.filesize s.rest l).status = .done a

/-- A transfer of a whole buffer is possible. -/
def TakesBuffer (b : Bulk) : Prop := b.ret = 0 ∧ readBufferSize ≤ b.actual

theorem pump_driven : Driven PumpEnds (fun _ x => TakesBuffer x.2) (fun s => s.filesize = 0)
    (fun x => x.1 ≠ none) (fun x => x.1 = none) PumpState.next where
  stopped l s hstop := by
    refine ⟨0, ?_⟩
    rw [hstop, pumpLoop_finished]
    rfl
  starved s hstop := by
    rintro ⟨a, ha⟩
    simp [pumpLoop, hstop] at ha
  pass := by
    rintro ⟨outcome, bulk⟩ l s hstop ⟨hret, hactual⟩
    cases outcome with
    | none =>
      rw [PumpEnds, pumpLoop_failed s.filesize s.rest bulk l hstop]
      exact iff_of_true ⟨-1, rfl⟩ (Or.inl rfl)
    | some n =>
      have hcount : bulk.count (s.rest.take (min n readBufferSize)).length =
          (s.rest.take (min n readBufferSize)).length := by
        have hbuffer : readBufferSize ≤ bulk.actual := hactual
        apply bulk.count_of_full _ hret
        rw [List.length_take]
        omega
      rw [PumpEnds, pumpLoop_pass s.filesize n s.rest bulk l hstop, Run.after_status,
        if_neg (not_not.mpr hcount)]
      simp [PumpEnds, PumpState.next]

theorem pumpState_after (xs : Stream' (Outcome × Bulk)) (s : PumpState) (n : ℕ)
    (hsize : s.filesize < 2 ^ 32) :
    (stateAfter PumpState.next s xs n).filesize = 0 ↔
      delivered readBufferSize s.rest.length (xs.map Prod.fst) n % 2 ^ 32 = s.filesize := by
  induction n generalizing xs s with
  | zero => simp [eq_comm]
  | succ n ih =>
    have hlen : (s.rest.take (min (xs.head.1.getD 0) readBufferSize)).length =
        min (min (xs.head.1.getD 0) readBufferSize) s.rest.length := List.length_take
    rw [stateAfter_succ, ih xs.tail _ (Nat.mod_lt _ (by omega)), delivered_succ]
    simp only [PumpState.next, hlen, List.length_drop, Stream'.tail_map, Stream'.head_map]
    have hbuffer : readBufferSize = 4096 := rfl
    have hfirst : min (min (xs.head.1.getD 0) readBufferSize) s.rest.length ≤ 4096 := by omega
    generalize min (min (xs.head.1.getD 0) readBufferSize) s.rest.length = first at hfirst
    generalize delivered _ _ _ n = others
    omega

/-- The loop of pusb ends exactly if the reads before some point deliver the size modulo
2^32, or one of them fails before: every read asks for a full buffer, and the counter wraps
below 0. -/
theorem pumpLoop_ends_iff (filesize : ℕ) (file : List UInt8) (xs : Stream' (Outcome × Bulk))
    (hsize : filesize < 2 ^ 32) (htakes : ∀ n, TakesBuffer (xs.get n).2) :
    (∃ m a, (pumpLoop filesize file (xs.take m)).status = .done a) ↔
      ∃ n, (∀ i < n, (xs.get i).1 ≠ none) ∧
        (delivered readBufferSize file.length (xs.map Prod.fst) n % 2 ^ 32 = filesize ∨
          (xs.get n).1 = none) := by
  have hends := pump_driven.ends_iff xs ⟨filesize, file⟩ htakes
  simp only [pumpState_after _ ⟨filesize, file⟩ _ hsize] at hends
  exact hends

end Pusb

/-! ### The three loops -/

/-- With a target that takes and acknowledges everything, the loops end exactly if the
reads before some point do not fail and deliver what the loop counts, or the loop is
left there: by a failed calloc in ukermit, by a failed f_read in pserial and pusb. -/
theorem loops_end_iff (signedChar : Bool) (size : ℕ) (file : List UInt8)
    (kermit : Stream' (Outcome × Attempt)) (hacks : ∀ n, GoodAck (n % 128) (kermit.get n).2.reply)
    (serial : Stream' (Outcome × Outcome)) (usb : Stream' (Outcome × Bulk))
    (htakes : ∀ n, TakesBuffer (usb.get n).2) (filesize : ℕ) (hfilesize : filesize < 2 ^ 32) :
    ((∃ m a, (transferLoop signedChar ((kermit.take m).map Prod.fst) size 0 file
        ((kermit.take m).map Prod.snd)).status = .done a) ↔
      ∃ n, (∀ i < n, (kermit.get i).1 ≠ none ∧ (kermit.get i).2.callocOk = true) ∧
        (size ≤ delivered maxChunk (min size file.length) (kermit.map Prod.fst) n ∨
          (kermit.get n).2.callocOk = false)) ∧
    ((∃ m a, (sendLoop size 0 file (serial.take m)).status = .done a) ↔
      ∃ n, (∀ i < n, (serial.get i).1 ≠ none) ∧
        (size ≤ delivered totSize (min size file.length) (serial.map Prod.fst) n ∨
          (serial.get n).1 = none)) ∧
    ((∃ m a, (pumpLoop filesize file (usb.take m)).status = .done a) ↔
      ∃ n, (∀ i < n, (usb.get i).1 ≠ none) ∧
        (delivered readBufferSize file.length (usb.map Prod.fst) n % 2 ^ 32 = filesize ∨
          (usb.get n).1 = none)) :=
  ⟨transferLoop_ends_iff signedChar size file kermit hacks, sendLoop_ends_iff size file serial,
    pumpLoop_ends_iff filesize file usb hfilesize htakes⟩

/-- A file of one byte that is read at once. -/
theorem loops_end_one_byte :
    (∃ m a, (transferLoop false
        (((Stream'.nats.map fun n => (some 1, (⟨true, 4, 3, ackPacket (n % 128)⟩ : Attempt))).take
          m).map Prod.fst) 1 0 [0]
        (((Stream'.nats.map fun n => (some 1, (⟨true, 4, 3, ackPacket (n % 128)⟩ : Attempt))).take
          m).map Prod.snd)).status = .done a) ∧
    (∃ m a, (sendLoop 1 0 [0] ((Stream'.const (some 1, some 1)).take m)).status = .done a) ∧
    ∃ m a, (pumpLoop 1 [0] ((Stream'.const (some 1, ⟨0, 4096⟩)).take m)).status = .done a := by
  obtain ⟨hkermit, hserial, husb⟩ := loops_end_iff false 1 [0]
    (Stream'.nats.map fun n => (some 1, ⟨true, 4, 3, ackPacket (n % 128)⟩))
    (fun n => goodAck_ackPacket _ (Nat.mod_lt _ (by omega)))
    (Stream'.const (some 1, some 1)) (Stream'.const (some 1, ⟨0, 4096⟩))
    (fun n => ⟨rfl, Nat.le_refl 4096⟩) 1 (by decide)
  refine ⟨hkermit.mpr ⟨1, ?_, Or.inl (by decide)⟩, hserial.mpr ⟨1, ?_, Or.inl (by decide)⟩,
    husb.mpr ⟨1, ?_, Or.inl (by decide)⟩⟩
  · exact fun i _ => ⟨nofun, rfl⟩
  · exact fun i _ => nofun
  · exact fun i _ => nofun

/-- A file that was emptied after its size of one byte was taken. -/
theorem emptied_file_never_ends :
    ¬ ∀ (size : ℕ) (file : List UInt8) (xs : Stream' (Outcome × Outcome)),
      ∃ m a, (sendLoop size 0 file (xs.take m)).status = .done a := by
  intro h
  obtain ⟨n, _, hend⟩ :=
    (sendLoop_ends_iff 1 [] _).mp (h 1 [] (Stream'.const (some 0, some 0)))
  rcases hend with hdelivered | hfailed
  · rw [delivered] at hdelivered
    simp at hdelivered
  · cases hfailed

end OmapBootUtils.LoopEnds
