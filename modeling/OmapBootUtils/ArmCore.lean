import OmapBootUtils.ByteMemory
import Mathlib.Logic.Function.Basic

/-!
A subset of the 32-bit ARM instruction set: decoding of instruction words, the
effect of each instruction on registers, flags and little-endian memory, and
runs of the machine. Unaligned accesses and words outside the subset have no
successor. A block of straight-line code runs as its instructions in sequence.
-/
namespace OmapBootUtils.ArmCore

open ByteMemory

abbrev Reg := Fin 16

/-- The program counter; read as an operand it is two instructions ahead. -/
abbrev pc : Reg := 15

abbrev r0 : Reg := 0
abbrev r1 : Reg := 1
abbrev r2 : Reg := 2
abbrev r3 : Reg := 3
abbrev r4 : Reg := 4
abbrev r5 : Reg := 5

structure Flags where
  n : Bool
  z : Bool
  c : Bool
  v : Bool
  deriving DecidableEq, Repr

structure State where
  reg : Reg → UInt32
  flags : Flags
  mem : UInt32 → UInt8

inductive Cond where
  | gt
  | al
  deriving DecidableEq, Repr

inductive Instr where
  | addImm (rd rn : Reg) (imm : UInt32)
  | subImm (rd rn : Reg) (imm : UInt32)
  | movImm (rd : Reg) (imm : UInt32)
  | cmpImm (rn : Reg) (imm : UInt32)
  | addReg (rd rn rm : Reg)
  | ldr (rt rn : Reg) (off : UInt32)
  | str (rt rn : Reg) (off : UInt32)
  | b (cond : Cond) (off : UInt32)
  | bx (rm : Reg)
  deriving DecidableEq, Repr

/-! ### Decoding -/

/-- Bits `lo` to `lo + len - 1` of a word. -/
def field (w : UInt32) (lo len : ℕ) : ℕ := w.toNat / 2 ^ lo % 2 ^ len

def regField (w : UInt32) (lo : ℕ) : Reg := Fin.ofNat 16 (field w lo 4)

/-- An immediate operand: eight bits rotated right by twice the rotation field. -/
def rotatedImm (w : UInt32) : UInt32 :=
  let imm := field w 0 8
  let rot := 2 * field w 8 4
  UInt32.ofNat (imm / 2 ^ rot + imm % 2 ^ rot * 2 ^ (32 - rot))

/-- A load or store offset, added or subtracted as bit 23 says. -/
def memOffset (w : UInt32) : UInt32 :=
  if field w 23 1 = 1 then UInt32.ofNat (field w 0 12) else 0 - UInt32.ofNat (field w 0 12)

/-- A branch offset in bytes, from a signed number of words. -/
def branchOffset (w : UInt32) : UInt32 :=
  let words := field w 0 24
  if words < 2 ^ 23 then UInt32.ofNat (4 * words) else 0 - UInt32.ofNat (4 * (2 ^ 24 - words))

def decodeCond : ℕ → Option Cond
  | 0xC => some .gt
  | 0xE => some .al
  | _ => none

/-- Instructions that are executed always. -/
def decodeAlways (w : UInt32) : Option Instr :=
  let rd := regField w 12
  let rn := regField w 16
  if field w 4 24 = 0x12FFF1 then some (.bx (regField w 0))
  else match field w 20 8 with
    | 0x28 => if rd = pc then none else some (.addImm rd rn (rotatedImm w))
    | 0x24 => if rd = pc then none else some (.subImm rd rn (rotatedImm w))
    | 0x3A => if rd = pc then none else some (.movImm rd (rotatedImm w))
    | 0x35 => some (.cmpImm rn (rotatedImm w))
    | 0x08 => if rd = pc ∨ field w 4 8 ≠ 0 then none else some (.addReg rd rn (regField w 0))
    | 0x51 | 0x59 => if rd = pc then none else some (.ldr rd rn (memOffset w))
    | 0x50 | 0x58 => if rd = pc then none else some (.str rd rn (memOffset w))
    | _ => none

def decode (w : UInt32) : Option Instr :=
  if field w 24 4 = 0xA then
    (decodeCond (field w 28 4)).map fun cond => .b cond (branchOffset w)
  else if field w 28 4 = 0xE then decodeAlways w
  else none

/-! ### Memory -/

def read32 (m : UInt32 → UInt8) (a : UInt32) : UInt32 :=
  readU32 (fun i => m (a + UInt32.ofNat i)) 0

def write32 (m : UInt32 → UInt8) (a v : UInt32) : UInt32 → UInt8 :=
  fun x => ((u32Bytes v)[(x - a).toNat]?).getD (m x)

/-- The block of `len` bytes from `a` on, around the end of memory if need be. -/
def InBlock (a : UInt32) (len : ℕ) (x : UInt32) : Prop := (x - a).toNat < len

instance (a : UInt32) (len : ℕ) (x : UInt32) : Decidable (InBlock a len x) := by
  unfold InBlock
  infer_instance

theorem add_ofNat_sub (a : UInt32) (i : ℕ) (h : i < 2 ^ 32) :
    (a + UInt32.ofNat i - a).toNat = i := by
  have : a + UInt32.ofNat i - a = UInt32.ofNat i := by grind
  rw [this, UInt32.toNat_ofNat']
  exact Nat.mod_eq_of_lt h

theorem write32_outside (m : UInt32 → UInt8) (a v x : UInt32) (h : ¬ InBlock a 4 x) :
    write32 m a v x = m x := by
  unfold write32
  rw [List.getElem?_eq_none (by rw [u32Bytes_length]; unfold InBlock at h; omega)]
  rfl

theorem write32_at (m : UInt32 → UInt8) (a v : UInt32) (i : ℕ) (h : i < 4) :
    write32 m a v (a + UInt32.ofNat i) = (u32Bytes v).get ⟨i, by simpa using h⟩ := by
  unfold write32
  rw [add_ofNat_sub a i (by omega), List.getElem?_eq_getElem (by simpa using h)]
  rfl

/-- Storing a word that was loaded copies its four bytes. -/
theorem write32_read32 (m m' : UInt32 → UInt8) (a b : UInt32) (i : ℕ) (h : i < 4) :
    write32 m a (read32 m' b) (a + UInt32.ofNat i) = m' (b + UInt32.ofNat i) := by
  have hbytes : u32Bytes (read32 m' b) = readBytes (fun i => m' (b + UInt32.ofNat i)) 0 4 := by
    have hlt : leNat (readBytes (fun i => m' (b + UInt32.ofNat i)) 0 4) < 2 ^ 32 := by
      simpa using leNat_lt (readBytes (fun i => m' (b + UInt32.ofNat i)) 0 4)
    have hle := leBytes_leNat (readBytes (fun i => m' (b + UInt32.ofNat i)) 0 4)
    rw [readBytes_length] at hle
    rw [u32Bytes, read32, readU32, UInt32.toNat_ofNat', Nat.mod_eq_of_lt hlt, hle]
  rw [write32_at m a _ i h]
  simp [hbytes]

/-! ### Execution -/

namespace State

def read (s : State) (r : Reg) : UInt32 := if r = pc then s.reg pc + 8 else s.reg r

def next (s : State) : State := { s with reg := Function.update s.reg pc (s.reg pc + 4) }

def set (s : State) (r : Reg) (v : UInt32) : State :=
  { s with reg := Function.update s.reg r v }

def holds (s : State) : Cond → Bool
  | .gt => !s.flags.z && s.flags.n == s.flags.v
  | .al => true

end State

def negative (x : UInt32) : Bool := decide (2 ^ 31 ≤ x.toNat)

def compareFlags (a b : UInt32) : Flags where
  n := negative (a - b)
  z := decide (a = b)
  c := decide (b ≤ a)
  v := negative a != negative b && negative (a - b) != negative a

/-- The effect of an instruction; a branch to a Thumb address is outside the subset. -/
def exec (s : State) : Instr → Option State
  | .addImm rd rn imm => some (s.next.set rd (s.read rn + imm))
  | .subImm rd rn imm => some (s.next.set rd (s.read rn - imm))
  | .movImm rd imm => some (s.next.set rd imm)
  | .cmpImm rn imm => some { s.next with flags := compareFlags (s.read rn) imm }
  | .addReg rd rn rm => some (s.next.set rd (s.read rn + s.read rm))
  | .ldr rt rn off =>
      if (s.read rn + off).toNat % 4 = 0 then
        some (s.next.set rt (read32 s.mem (s.read rn + off)))
      else none
  | .str rt rn off =>
      if (s.read rn + off).toNat % 4 = 0 then
        some { s.next with mem := write32 s.mem (s.read rn + off) (s.read rt) }
      else none
  | .b cond off => some (if s.holds cond then s.set pc (s.reg pc + 8 + off) else s.next)
  | .bx rm => if (s.read rm).toNat % 4 = 0 then some (s.set pc (s.read rm)) else none

theorem exec_ldr (s : State) (rt rn : Reg) (off a : UInt32) (ha : s.read rn + off = a)
    (haligned : a.toNat % 4 = 0) :
    exec s (.ldr rt rn off) = some (s.next.set rt (read32 s.mem a)) := by
  rw [exec, ha, if_pos haligned]

theorem exec_str (s : State) (rt rn : Reg) (off a : UInt32) (ha : s.read rn + off = a)
    (haligned : a.toNat % 4 = 0) :
    exec s (.str rt rn off) = some { s.next with mem := write32 s.mem a (s.read rt) } := by
  rw [exec, ha, if_pos haligned]

/-- A branch moves the program counter and nothing else. -/
theorem exec_b (s : State) (cond : Cond) (off : UInt32) :
    ∃ s', exec s (.b cond off) = some s' ∧ s'.mem = s.mem ∧
      s'.reg pc = (if s.holds cond then s.reg pc + 8 + off else s.reg pc + 4) ∧
      ∀ r, r ≠ pc → s'.reg r = s.reg r := by
  refine ⟨_, rfl, ?_⟩
  cases s.holds cond with
  | true => simp +contextual [State.set, Function.update_of_ne]
  | false => simp +contextual [State.next, Function.update_of_ne]

/-- A signed comparison of numbers without sign bits is the unsigned one. -/
theorem holds_gt_iff (s : State) (a b : UInt32) (hs : s.flags = compareFlags a b)
    (ha : a.toNat < 2 ^ 31) (hb : b.toNat < 2 ^ 31) : s.holds .gt = decide (b.toNat < a.toNat) := by
  have hsub : (a - b).toNat = (2 ^ 32 - b.toNat + a.toNat) % 2 ^ 32 := UInt32.toNat_sub a b
  have hna : negative a = false := by
    rw [negative, decide_eq_false_iff_not]
    omega
  have hnb : negative b = false := by
    rw [negative, decide_eq_false_iff_not]
    omega
  rw [State.holds, hs]
  simp only [compareFlags, hna, hnb, bne_self_eq_false, Bool.false_and]
  rw [Bool.eq_iff_iff]
  simp only [negative, ← UInt32.toNat_inj, Bool.and_eq_true, Bool.not_eq_true',
    decide_eq_false_iff_not, beq_iff_eq, decide_eq_true_eq]
  omega

def fetch (s : State) : Option Instr :=
  if (s.reg pc).toNat % 4 = 0 then decode (read32 s.mem (s.reg pc)) else none

def step (s : State) : Option State := (fetch s).bind (exec s)

/-- The state after `n` instructions. -/
def run : ℕ → State → Option State
  | 0, s => some s
  | n + 1, s => (step s).bind (run n)

theorem run_add (m n : ℕ) (s : State) : run (m + n) s = (run m s).bind (run n) := by
  induction m generalizing s with
  | zero => simp [run]
  | succ m ih =>
    rw [show m + 1 + n = m + n + 1 by omega]
    cases hs : step s with
    | none => simp [run, hs]
    | some t => simpa [run, hs] using ih t

theorem run_trans {m n : ℕ} {s t u : State} (hst : run m s = some t) (htu : run n t = some u) :
    run (m + n) s = some u := by
  rw [run_add, hst, Option.bind_some, htu]

theorem run_one {s t : State} (h : step s = some t) : run 1 s = some t := by
  simp [run, h]

/-! ### Straight-line code -/

/-- Instructions that go on to the next one and write no memory. -/
def Instr.straight : Instr → Bool
  | .str .. | .b .. | .bx .. => false
  | .addImm rd _ _ | .subImm rd _ _ | .movImm rd _ | .addReg rd _ _ | .ldr rd _ _ => rd != pc
  | .cmpImm .. => true

def execBlock (block : List Instr) (s : State) : Option State := block.foldlM exec s

theorem exec_straight (s s' : State) (i : Instr) (hi : i.straight = true)
    (h : exec s i = some s') : s'.reg pc = s.reg pc + 4 ∧ s'.mem = s.mem := by
  have hset : ∀ (r : Reg) (v : UInt32), (r != pc) = true →
      (s.next.set r v).reg pc = s.reg pc + 4 := by
    intro r v hr
    have hne : pc ≠ r := by
      rintro rfl
      simp at hr
    simp [State.set, State.next, Function.update_of_ne hne]
  cases i with
  | cmpImm rn imm =>
    cases h
    exact ⟨by simp [State.next], rfl⟩
  | ldr rt rn off =>
    rw [exec] at h
    split at h
    · cases h
      exact ⟨hset rt _ hi, rfl⟩
    · cases h
  | str rt rn off => cases hi
  | b cond off => cases hi
  | bx rm => cases hi
  | _ =>
    cases h
    exact ⟨hset _ _ hi, rfl⟩

theorem execBlock_cons {s t : State} {i : Instr} (block : List Instr) (h : exec s i = some t) :
    execBlock (i :: block) s = execBlock block t := by
  simp [execBlock, h]

/-- What the words at `a` decode to. -/
def CodeAt (m : UInt32 → UInt8) (a : UInt32) (block : List Instr) : Prop :=
  ∀ i instr, block[i]? = some instr →
    decode (read32 m (a + UInt32.ofNat (4 * i))) = some instr

theorem aligned_add (a : UInt32) (n : ℕ) (ha : a.toNat % 4 = 0) (hn : n % 4 = 0) :
    (a + UInt32.ofNat n).toNat % 4 = 0 := by
  rw [UInt32.toNat_add, UInt32.toNat_ofNat']
  omega

theorem CodeAt.drop {m : UInt32 → UInt8} {a : UInt32} {block : List Instr}
    (h : CodeAt m a block) (k : ℕ) : CodeAt m (a + UInt32.ofNat (4 * k)) (block.drop k) := by
  intro i instr hi
  rw [List.getElem?_drop] at hi
  have := h (k + i) instr hi
  rwa [Nat.mul_add, UInt32.ofNat_add, ← UInt32.add_assoc] at this

theorem step_of_codeAt (s : State) (instr : Instr) (rest : List Instr)
    (h : CodeAt s.mem (s.reg pc) (instr :: rest)) (ha : (s.reg pc).toNat % 4 = 0) :
    step s = exec s instr := by
  have hcode := h 0 instr rfl
  rw [Nat.mul_zero, show UInt32.ofNat 0 = 0 from rfl, UInt32.add_zero] at hcode
  rw [step, fetch, if_pos ha, hcode]
  rfl

/-- A straight-line block runs as its instructions in sequence. -/
theorem run_block (block rest : List Instr) (s s' : State)
    (hcode : CodeAt s.mem (s.reg pc) (block ++ rest)) (ha : (s.reg pc).toNat % 4 = 0)
    (hstraight : ∀ i ∈ block, i.straight = true) (hexec : execBlock block s = some s') :
    run block.length s = some s' ∧ s'.mem = s.mem ∧
      s'.reg pc = s.reg pc + UInt32.ofNat (4 * block.length) := by
  induction block generalizing s with
  | nil =>
    cases hexec
    exact ⟨rfl, rfl, by simp⟩
  | cons instr block ih =>
    obtain ⟨t, ht, hrest⟩ := Option.bind_eq_some_iff.mp hexec
    obtain ⟨hpc, hmem⟩ := exec_straight s t instr (hstraight instr (by simp)) ht
    have hstep := step_of_codeAt s instr (block ++ rest) hcode ha
    have hdrop := hcode.drop 1
    have hfour : UInt32.ofNat (4 * 1) = 4 := rfl
    rw [hfour, ← hpc, ← hmem] at hdrop
    have hnext := ih t hdrop (by
      rw [hpc]
      exact aligned_add (s.reg pc) 4 ha (by decide)) (fun i hi => hstraight i (by simp [hi])) hrest
    refine ⟨?_, hnext.2.1.trans hmem, ?_⟩
    · rw [List.length_cons, run, hstep, ht, Option.bind_some, hnext.1]
    · rw [hnext.2.2, hpc, List.length_cons, Nat.mul_add, UInt32.ofNat_add, hfour]
      grind

end OmapBootUtils.ArmCore
