import OmapBootUtils.ChHeader
import OmapBootUtils.ConfigHandler
import OmapBootUtils.ImageCalls

/-!
gpsign: the table of its settings, and its main from the configuration file on.
A main that was given a file fills in the structures from its pairs, and then
writes the configuration header if there is one, the size and the load address,
and the input file, in mode -4 with padding between its pages.
-/
namespace OmapBootUtils.GpsignImage

open ByteMemory PackedLayout ScriptedRun ImageCalls ConfigHandler ChSections

/-! ### The settings -/

inductive GpsignObject where
  | loadaddr
  | chsettings
  | chram
  | chflash
  | chmmcsd
  deriving DecidableEq, Repr

namespace GpsignObject

def name : GpsignObject → String
  | loadaddr => "loadaddr"
  | chsettings => "platform_chsettings"
  | chram => "platform_chram"
  | chflash => "platform_chflash"
  | chmmcsd => "platform_chmmcsd"

def layout : GpsignObject → Layout
  | loadaddr => [⟨"loadaddr", 4⟩]
  | chsettings => chSettings
  | chram => chRam
  | chflash => chFlash
  | chmmcsd => chMmcsd

end GpsignObject

/-- A member of one of the structures, keyed by its C expression. -/
def settingOf (object : GpsignObject) (setting : String × ℕ) : CompareMap GpsignObject :=
  ⟨object.name ++ "." ++ setting.1, object, object.layout.offset setting.1, setting.2⟩

def chsettingsMembers : List (String × ℕ) :=
  [("section_key", typeU32), ("valid", typeU8), ("version", typeU8), ("flags", typeU32),
    ("GEN_PRM_CLKSRC_CTRL", typeU32), ("GEN_PRM_CLKSEL", typeU32),
    ("GEN_CM_CLKSEL1_EMU", typeU32), ("CLK_CM_CLKSEL_CORE", typeU32),
    ("CLK_CM_CLKSEL_WKUP", typeU32), ("DPLL3_CM_CLKEN_PLL", typeU32),
    ("DPLL3_CM_AUTOIDLE_PLL", typeU32), ("DPLL3_CM_CLKSEL1_PLL", typeU32),
    ("DPLL4_CM_CLKEN_PLL", typeU32), ("DPLL4_CM_AUTOIDLE_PLL", typeU32),
    ("DPLL4_CM_CLKSEL2_PLL", typeU32), ("DPLL4_CM_CLKSEL3_PLL", typeU32),
    ("DPLL1_CM_CLKEN_PLL_MPU", typeU32), ("DPLL1_CM_AUTOIDLE_PLL_MPU", typeU32),
    ("DPLL1_CM_CLKSEL1_PLL_MPU", typeU32), ("DPLL1_CM_CLKSEL2_PLL_MPU", typeU32),
    ("DPLL1_CM_CLKSTCTRL_MPU", typeU32)]

def chramMembers : List (String × ℕ) :=
  [("section_key", typeU32), ("valid", typeU8), ("SDRC_SYSCONFIG_LSB", typeU16),
    ("SDRC_CS_CFG_LSB", typeU16), ("SDRC_SHARING_LSB", typeU16), ("SDRC_ERR_TYPE_LSB", typeU16),
    ("SDRC_DLLA_CTRL", typeU32), ("SDRC_POWER", typeU32), ("mem_type_cs0", typeU16),
    ("SDRC_MCFG_0", typeU32), ("SDRC_MR_0_LSB", typeU16), ("SDRC_EMR1_0_LSB", typeU16),
    ("SDRC_EMR2_0_LSB", typeU16), ("SDRC_EMR3_0_LSB", typeU16), ("SDRC_ACTIM_CTRLA_0", typeU32),
    ("SDRC_ACTIM_CTRLB_0", typeU32), ("SDRC_RFRCTRL_0", typeU32), ("mem_type_cs1", typeU16),
    ("SDRC_MCFG_1", typeU32), ("SDRC_MR_1_LSB", typeU16), ("SDRC_EMR1_1_LSB", typeU16),
    ("SDRC_EMR2_1_LSB", typeU16), ("SDRC_EMR3_1_LSB", typeU16), ("SDRC_ACTIM_CTRLA_1", typeU32),
    ("SDRC_ACTIM_CTRLB_1", typeU32), ("SDRC_RFRCTRL_1", typeU32), ("flags", typeU32)]

def chflashMembers : List (String × ℕ) :=
  [("section_key", typeU32), ("valid", typeU8), ("GPMC_SYSCONFIG_LSB", typeU16),
    ("GPMC_IRQENABLE_LSB", typeU16), ("GPMC_TIMEOUT_CONTROL_LSB", typeU16),
    ("GPMC_CONFIG_LSB", typeU16), ("GPMC_CONFIG1_0", typeU32), ("GPMC_CONFIG2_0", typeU32),
    ("GPMC_CONFIG3_0", typeU32), ("GPMC_CONFIG4_0", typeU32), ("GPMC_CONFIG5_0", typeU32),
    ("GPMC_CONFIG6_0", typeU32), ("GPMC_CONFIG7_0", typeU32),
    ("GPMC_PREFETCH_CONFIG1", typeU32), ("GPMC_PREFETCH_CONFIG2_LSB", typeU16),
    ("GPMC_PREFETCH_CONTROL_LSB", typeU16), ("GPMC_ECC_CONFIG", typeU16),
    ("GPMC_ECC_CONTROL", typeU16), ("GPMC_ECC_SIZE_CONFIG_LSB", typeU16),
    ("enable_A1_A10", typeU16)]

def chmmcsdMembers : List (String × ℕ) :=
  [("section_key", typeU32), ("valid", typeU8), ("MMCHS_SYSCTRL_MSB", typeU16),
    ("MMCHS_SYSCTRL_LSB", typeU16), ("bus_width", typeU32)]

def variableMap : List (CompareMap GpsignObject) :=
  ⟨"loadaddr", .loadaddr, 0, typeU32⟩ ::
    (chsettingsMembers.map (settingOf .chsettings) ++ chramMembers.map (settingOf .chram) ++
      chflashMembers.map (settingOf .chflash) ++ chmmcsdMembers.map (settingOf .chmmcsd))

/-- The variables before the configuration file is read. -/
def resetObjects (m : Objects GpsignObject) : Objects GpsignObject
  | .loadaddr => putU32 (m .loadaddr) 0 0x40208800
  | o => putBytes (m o) 0 (List.replicate o.layout.size 0)

def platformOf (objs : Objects GpsignObject) : Platform :=
  ⟨objs .chsettings, objs .chram, objs .chflash, objs .chmmcsd⟩

/-! ### The image -/

def pagePadSize : ℕ := 2048

structure GpsignOptions where
  cmdLoadaddr : UInt32
  pageSize4k : Bool

/-- One pass of the loop: what fread delivers, and what the fwrite of the padding,
if it is made, and that of the byte accept. -/
structure Pass where
  data : List UInt8
  padAccepted : ℕ
  accepted : ℕ

/-- Padding goes before byte `i`; a sum that wraps has the same remainder. -/
def padBefore (opts : GpsignOptions) (i : ℕ) : Bool :=
  opts.pageSize4k && decide (8 < i) && decide ((i + 8) % pagePadSize = 0)

/-- The loop over the input file; when fread delivers nothing, ch keeps its value. -/
def inputLoop (opts : GpsignOptions) (len : ℕ) : List Pass → ℕ → UInt8 → Image Unit
  | [], i, _ => if i < len then Run.block else return ()
  | pass :: passes, i, ch =>
      if i < len then do
        Run.emit (.fread 1 (pass.data.take 1))
        let ch := pass.data.headD ch
        if padBefore opts i then
          Run.emit (.fwrite (List.replicate pagePadSize 0xFF) pass.padAccepted)
        Run.emit (.fwrite [ch] pass.accepted)
        let i ← increment i
        inputLoop opts len passes i ch
      else return ()

/-- The results of the calls of main after the configuration, and the bytes its
static buffer and its uninitialised local happen to hold. -/
structure GpsignEnv where
  chBuffer : Memory
  ch : UInt8
  inputOpened : Bool
  inputSize : ℕ
  outputOpened : Bool
  headerAccepted : ℕ
  sizeAccepted : ℕ
  loadaddrAccepted : ℕ
  passes : List Pass

/-- The load address that is written, the command line before the file. -/
def loadaddrOf (opts : GpsignOptions) (objs : Objects GpsignObject) : UInt32 :=
  if opts.cmdLoadaddr ≠ 0xFFFFFFFF then opts.cmdLoadaddr else readU32 (objs .loadaddr) 0

/-- main of gpsign from the opening of the input file on. -/
def gpsignBuild (opts : GpsignOptions) (objs : Objects GpsignObject) (env : GpsignEnv) :
    Image ℤ := do
  Run.emit (.fopenRead env.inputOpened)
  if ¬ env.inputOpened then return -3 else
  Run.emit (.stat env.inputSize)
  Run.emit (.fopenWrite env.outputOpened)
  if ¬ env.outputOpened then do
    Run.emit .fclose
    return 0
  else
  match fillupCh (platformOf objs) env.chBuffer with
  | none => Run.crash
  | some (chBuffer, ret) => do
      if ret = 0 then
        Run.emit (.fwrite (readBytes chBuffer 0 chBufferSize) env.headerAccepted)
      Run.emit (.fwrite (leBytes 4 env.inputSize) env.sizeAccepted)
      Run.emit (.fwrite (u32Bytes (loadaddrOf opts objs)) env.loadaddrAccepted)
      inputLoop opts env.inputSize env.passes 0 env.ch
      Run.emit .fclose
      Run.emit .fclose
      return 0

/-- main of gpsign after its options; the status of lcfg_accept is not looked at. -/
def gpsignMain (opts : GpsignOptions) (config : ConfigFile) (m : Objects GpsignObject)
    (env : GpsignEnv) : Image ℤ :=
  match config with
  | .absent => gpsignBuild opts (resetObjects m) env
  | .notCreated => return -2
  | .notParsed => return -3
  | .parsed pairs => gpsignBuild opts (lcfgAccept variableMap pairs (resetObjects m)).2 env

end OmapBootUtils.GpsignImage
