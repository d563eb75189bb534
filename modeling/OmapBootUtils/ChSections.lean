import OmapBootUtils.CString
import OmapBootUtils.PackedLayout
import OmapBootUtils.RecordChain

/-!
The configuration header of gpsign: the packed structures of gpsign.c, and
fillup_ch, which puts a table of contents at the start of the 512-byte buffer and
each valid structure at its fixed offset. The four structures are given by the
memory from their first byte on, so a copy may run past their end.
-/
namespace OmapBootUtils.ChSections

open ByteMemory CString PackedLayout RecordChain

def chToc : Layout :=
  [⟨"start", 4⟩, ⟨"size", 4⟩, ⟨"reserved", 12⟩, ⟨"name", 12⟩]

def chSettings : Layout :=
  [⟨"section_key", 4⟩, ⟨"valid", 1⟩, ⟨"version", 1⟩, ⟨"reserved", 2⟩, ⟨"flags", 4⟩,
    ⟨"GEN_PRM_CLKSRC_CTRL", 4⟩, ⟨"GEN_PRM_CLKSEL", 4⟩, ⟨"GEN_CM_CLKSEL1_EMU", 4⟩,
    ⟨"CLK_CM_CLKSEL_CORE", 4⟩, ⟨"CLK_CM_CLKSEL_WKUP", 4⟩, ⟨"DPLL3_CM_CLKEN_PLL", 4⟩,
    ⟨"DPLL3_CM_AUTOIDLE_PLL", 4⟩, ⟨"DPLL3_CM_CLKSEL1_PLL", 4⟩, ⟨"DPLL4_CM_CLKEN_PLL", 4⟩,
    ⟨"DPLL4_CM_AUTOIDLE_PLL", 4⟩, ⟨"DPLL4_CM_CLKSEL2_PLL", 4⟩, ⟨"DPLL4_CM_CLKSEL3_PLL", 4⟩,
    ⟨"DPLL1_CM_CLKEN_PLL_MPU", 4⟩, ⟨"DPLL1_CM_AUTOIDLE_PLL_MPU", 4⟩,
    ⟨"DPLL1_CM_CLKSEL1_PLL_MPU", 4⟩, ⟨"DPLL1_CM_CLKSEL2_PLL_MPU", 4⟩,
    ⟨"DPLL1_CM_CLKSTCTRL_MPU", 4⟩]

def chRam : Layout :=
  [⟨"section_key", 4⟩, ⟨"valid", 1⟩, ⟨"reserved0", 3⟩, ⟨"SDRC_SYSCONFIG_LSB", 2⟩,
    ⟨"SDRC_CS_CFG_LSB", 2⟩, ⟨"SDRC_SHARING_LSB", 2⟩, ⟨"SDRC_ERR_TYPE_LSB", 2⟩,
    ⟨"SDRC_DLLA_CTRL", 4⟩, ⟨"reserved1", 4⟩, ⟨"SDRC_POWER", 4⟩, ⟨"mem_type_cs0", 2⟩,
    ⟨"reserved2", 2⟩, ⟨"SDRC_MCFG_0", 4⟩, ⟨"SDRC_MR_0_LSB", 2⟩, ⟨"SDRC_EMR1_0_LSB", 2⟩,
    ⟨"SDRC_EMR2_0_LSB", 2⟩, ⟨"SDRC_EMR3_0_LSB", 2⟩, ⟨"SDRC_ACTIM_CTRLA_0", 4⟩,
    ⟨"SDRC_ACTIM_CTRLB_0", 4⟩, ⟨"SDRC_RFRCTRL_0", 4⟩, ⟨"mem_type_cs1", 2⟩, ⟨"reserved3", 2⟩,
    ⟨"SDRC_MCFG_1", 4⟩, ⟨"SDRC_MR_1_LSB", 2⟩, ⟨"SDRC_EMR1_1_LSB", 2⟩, ⟨"SDRC_EMR2_1_LSB", 2⟩,
    ⟨"SDRC_EMR3_1_LSB", 2⟩, ⟨"SDRC_ACTIM_CTRLA_1", 4⟩, ⟨"SDRC_ACTIM_CTRLB_1", 4⟩,
    ⟨"SDRC_RFRCTRL_1", 4⟩, ⟨"reserved4", 4⟩, ⟨"flags", 2⟩, ⟨"reserved5", 2⟩]

def chFlash : Layout :=
  [⟨"section_key", 4⟩, ⟨"valid", 1⟩, ⟨"reserved", 3⟩, ⟨"GPMC_SYSCONFIG_LSB", 2⟩,
    ⟨"GPMC_IRQENABLE_LSB", 2⟩, ⟨"GPMC_TIMEOUT_CONTROL_LSB", 2⟩, ⟨"GPMC_CONFIG_LSB", 2⟩,
    ⟨"GPMC_CONFIG1_0", 4⟩, ⟨"GPMC_CONFIG2_0", 4⟩, ⟨"GPMC_CONFIG3_0", 4⟩, ⟨"GPMC_CONFIG4_0", 4⟩,
    ⟨"GPMC_CONFIG5_0", 4⟩, ⟨"GPMC_CONFIG6_0", 4⟩, ⟨"GPMC_CONFIG7_0", 4⟩,
    ⟨"GPMC_PREFETCH_CONFIG1", 4⟩, ⟨"GPMC_PREFETCH_CONFIG2_LSB", 2⟩,
    ⟨"GPMC_PREFETCH_CONTROL_LSB", 2⟩, ⟨"GPMC_ECC_CONFIG", 2⟩, ⟨"GPMC_ECC_CONTROL", 2⟩,
    ⟨"GPMC_ECC_SIZE_CONFIG_LSB", 2⟩, ⟨"enable_A1_A10", 2⟩]

def chMmcsd : Layout :=
  [⟨"section_key", 4⟩, ⟨"valid", 1⟩, ⟨"reserved", 3⟩, ⟨"MMCHS_SYSCTRL_MSB", 2⟩,
    ⟨"MMCHS_SYSCTRL_LSB", 2⟩, ⟨"bus_width", 4⟩]

/-- The memory from each of the four static structures on. -/
structure Platform where
  chsettings : Memory
  chram : Memory
  chflash : Memory
  chmmcsd : Memory

def bytesOf (s : String) : List UInt8 := s.toList.map fun c => UInt8.ofNat c.toNat

/-- A kind of section: its name, its offset in the buffer, its structure, and how
many bytes fillup_ch copies from the start of the structure. -/
structure SectionKind where
  name : String
  start : ℕ
  layout : Layout
  copied : ℕ

def SectionKind.size (k : SectionKind) : ℕ := k.layout.size

def settingsKind : SectionKind := ⟨"CHSETTINGS", 0xA0, chSettings, chSettings.size⟩

def ramKind : SectionKind := ⟨"CHRAM", 0xF0, chRam, chRam.size⟩

def flashKind : SectionKind := ⟨"CHFLASH", 0x14C, chFlash, chFlash.size⟩

/-- The copy of this section is sized by the structure before it. -/
def mmcsdKind : SectionKind := ⟨"CHMMCSD", 0x188, chMmcsd, chFlash.size⟩

/-- A section with the memory its structure starts at. -/
structure Section extends SectionKind where
  contents : Memory

def Section.valid (s : Section) : UInt8 := s.contents (s.layout.offset "valid")

variable (p : Platform)

def settingsSection : Section := ⟨settingsKind, p.chsettings⟩

def ramSection : Section := ⟨ramKind, p.chram⟩

def flashSection : Section := ⟨flashKind, p.chflash⟩

def mmcsdSection : Section := ⟨mmcsdKind, p.chmmcsd⟩

/-! ### fillup_ch -/

def chBufferSize : ℕ := 512

structure TocEntry where
  start : UInt32
  size : UInt32
  name : List UInt8
  deriving DecidableEq, Repr

def SectionKind.entry (k : SectionKind) : TocEntry :=
  ⟨UInt32.ofNat k.start, UInt32.ofNat k.size, bytesOf k.name⟩

/-- struct ch_toc_struct, zeroed and then filled in. -/
def TocEntry.memory (e : TocEntry) : Memory :=
  let toc : Memory := fun _ => 0
  let toc := putU32 toc (chToc.offset "start") e.start
  let toc := putU32 toc (chToc.offset "size") e.size
  putBytes toc (chToc.offset "name") (terminated e.name)

/-- Append the entry of a section at toc_idx and copy its contents. -/
def putSection (s : Section) (c : Cursor) : Option Cursor := do
  let c ← c.put chBufferSize 0 (readBytes s.entry.memory 0 chToc.size)
  let chBuffer ← writeBytes chBufferSize c.mem s.start (readBytes s.contents 0 s.copied)
  return ⟨c.pos + chToc.size, chBuffer⟩

def putIfValid (s : Section) (c : Cursor) : Option Cursor :=
  if s.valid = 0 then some c else putSection s c

/-- The entry that ends the table. -/
def tocEnd : List UInt8 := List.replicate chToc.size 0xFF

/-- The contents of ch_buffer after the call and the value returned. -/
def fillupCh (chBuffer : Memory) : Option (Memory × ℤ) :=
  if (settingsSection p).valid = 0 then some (chBuffer, 1) else do
    let c : Cursor := ⟨0, putBytes chBuffer 0 (List.replicate chBufferSize 0)⟩
    let c ← putSection (settingsSection p) c
    let c ← putIfValid (ramSection p) c
    let c ← putIfValid (flashSection p) c
    let c ← putIfValid (mmcsdSection p) c
    let c ← c.put chBufferSize 0 tocEnd
    return (c.mem, 0)

end OmapBootUtils.ChSections
