import Armv8Driver.Arm.Bank
import Armv8Driver.Transition.System

/-!
# The registers that `gic.c` sets up

The distributor, the redistributor of the one CPU and its interface, as far as `gic_init` and `gic_enable_irq`
access them. The three memory-mapped widths have a decoder each, from the address to the register; the bits of
`GICD_ISENABLER` and `GICR_ISENABLER0` are set by writing ones. A function of `gic.c` is the list of its accesses,
and it runs while the redistributor falls asleep and wakes up and the lines of the interrupts come and go.
-/

namespace Armv8Driver.GicSetup

open Arm Transition

abbrev Reg := BitVec 32

def GICD_BASE : Nat := 0x08000000
def GICR_BASE : Nat := 0x080A0000

def GICR_ISENABLER0 : Nat := 0x10100
def GICR_IPRIORITYR : Nat := 0x10400
def GICR_IGROUPR0 : Nat := 0x10080
def GICR_WAKER : Nat := 0x00014

def GICD_CTLR : Nat := 0x0000
def GICD_ISENABLER : Nat := 0x0100
def GICD_IPRIORITYR : Nat := 0x0400
def GICD_ICFGR : Nat := 0x0C00
def GICD_IROUTER : Nat := 0x6000

def UART_IRQ : Nat := 33

/-- What software has set. -/
structure Config where
  gicd_ctlr : Reg
  gicd_igroupr : Bank
  gicd_isenabler : Bank
  gicd_icfgr : Bank
  gicd_ipriorityr : Nat → BitVec 8
  gicd_irouter : Nat → BitVec 64
  gicr_igroupr0 : Reg
  gicr_isenabler0 : Reg
  gicr_ipriorityr : Nat → BitVec 8
  icc_sre_el1 : BitVec 64
  icc_pmr_el1 : BitVec 64
  icc_igrpen1_el1 : BitVec 64

structure Gic where
  config : Config
  gicr_waker : Reg

/-- The registers of 32 bits. -/
inductive Word where
  | gicd_ctlr
  | gicd_igroupr (n : Nat)
  | gicd_isenabler (n : Nat)
  | gicd_icfgr (n : Nat)
  | gicr_waker
  | gicr_igroupr0
  | gicr_isenabler0
  deriving DecidableEq

/-- The register in a bank of `size` bytes at `base`. -/
def index (base size width addr : Nat) : Option Nat :=
  if base ≤ addr ∧ addr < base + size ∧ (addr - base) % width = 0 then some ((addr - base) / width) else none

def word (addr : Nat) : Option Word :=
  if addr = GICD_BASE + GICD_CTLR then some .gicd_ctlr
  else if addr = GICR_BASE + GICR_WAKER then some .gicr_waker
  else if addr = GICR_BASE + GICR_IGROUPR0 then some .gicr_igroupr0
  else if addr = GICR_BASE + GICR_ISENABLER0 then some .gicr_isenabler0
  else ((index (GICD_BASE + 0x0080) 0x80 4 addr).map .gicd_igroupr).or
    (((index (GICD_BASE + GICD_ISENABLER) 0x80 4 addr).map .gicd_isenabler).or
      ((index (GICD_BASE + GICD_ICFGR) 0x100 4 addr).map .gicd_icfgr))

/-- The registers of a byte: a priority of the distributor or of the redistributor. -/
inductive ByteReg where
  | gicd_ipriorityr (n : Nat)
  | gicr_ipriorityr (n : Nat)
  deriving DecidableEq

def byte (addr : Nat) : Option ByteReg :=
  ((index (GICD_BASE + GICD_IPRIORITYR) 1020 1 addr).map .gicd_ipriorityr).or
    ((index (GICR_BASE + GICR_IPRIORITYR) 32 1 addr).map .gicr_ipriorityr)

/-- The route of an interrupt. -/
def double (addr : Nat) : Option Nat := index (GICD_BASE + GICD_IROUTER) (1020 * 8) 8 addr

inductive Sysreg where
  | icc_sre_el1 | icc_pmr_el1 | icc_igrpen1_el1
  deriving DecidableEq

namespace Config

/-- `GICR_WAKER` is not part of it. -/
def read (g : Config) : Word → Reg
  | .gicd_ctlr => g.gicd_ctlr
  | .gicd_igroupr n => g.gicd_igroupr n
  | .gicd_isenabler n => g.gicd_isenabler n
  | .gicd_icfgr n => g.gicd_icfgr n
  | .gicr_waker => 0
  | .gicr_igroupr0 => g.gicr_igroupr0
  | .gicr_isenabler0 => g.gicr_isenabler0

def write (g : Config) (v : Reg) : Word → Config
  | .gicd_ctlr => { g with gicd_ctlr := v }
  | .gicd_igroupr n => { g with gicd_igroupr := Function.update g.gicd_igroupr n v }
  | .gicd_isenabler n => { g with gicd_isenabler := Function.update g.gicd_isenabler n (g.gicd_isenabler n ||| v) }
  | .gicd_icfgr n => { g with gicd_icfgr := Function.update g.gicd_icfgr n v }
  | .gicr_waker => g
  | .gicr_igroupr0 => { g with gicr_igroupr0 := v }
  | .gicr_isenabler0 => { g with gicr_isenabler0 := g.gicr_isenabler0 ||| v }

def writeByte (g : Config) (v : BitVec 8) : ByteReg → Config
  | .gicd_ipriorityr n => { g with gicd_ipriorityr := Function.update g.gicd_ipriorityr n v }
  | .gicr_ipriorityr n => { g with gicr_ipriorityr := Function.update g.gicr_ipriorityr n v }

def writeDouble (g : Config) (v : BitVec 64) (n : Nat) : Config :=
  { g with gicd_irouter := Function.update g.gicd_irouter n v }

def mrs (g : Config) : Sysreg → BitVec 64
  | .icc_sre_el1 => g.icc_sre_el1
  | .icc_pmr_el1 => g.icc_pmr_el1
  | .icc_igrpen1_el1 => g.icc_igrpen1_el1

def msr (g : Config) (v : BitVec 64) : Sysreg → Config
  | .icc_sre_el1 => { g with icc_sre_el1 := v }
  | .icc_pmr_el1 => { g with icc_pmr_el1 := v }
  | .icc_igrpen1_el1 => { g with icc_igrpen1_el1 := v }

end Config

def ProcessorSleep : Nat := 1
def ChildrenAsleep : Nat := 2

namespace Gic

def read (g : Gic) (w : Word) : Reg := if w = .gicr_waker then g.gicr_waker else g.config.read w

/-- Of `GICR_WAKER` software writes `ProcessorSleep`. -/
def write (g : Gic) (v : Reg) (w : Word) : Gic where
  config := g.config.write v w
  gicr_waker :=
    if w = .gicr_waker then g.gicr_waker &&& ~~~(1#32 <<< ProcessorSleep) ||| v &&& 1#32 <<< ProcessorSleep
    else g.gicr_waker

def asleep (g : Gic) : Bool := g.gicr_waker.getLsbD ChildrenAsleep

def sleeps (g : Gic) : Bool := g.gicr_waker.getLsbD ProcessorSleep

/-- The redistributor falls asleep or wakes up, as `ProcessorSleep` says. -/
def settle (g : Gic) : Option Gic :=
  if g.asleep = g.sleeps then none
  else if g.asleep then some { g with gicr_waker := g.gicr_waker &&& ~~~(1#32 <<< ChildrenAsleep) }
  else some { g with gicr_waker := g.gicr_waker ||| 1#32 <<< ChildrenAsleep }

end Gic

/-- The accesses. A barrier is none. -/
inductive Stmt where
  /-- `*addr = v` -/
  | write32 (addr : Nat) (v : Reg)
  | write8 (addr : Nat) (v : BitVec 8)
  | write64 (addr : Nat) (v : BitVec 64)
  /-- `*addr |= v` -/
  | or32 (addr : Nat) (v : Reg)
  /-- `*addr &= v` -/
  | and32 (addr : Nat) (v : Reg)
  /-- `while (*addr & mask) {}` -/
  | wait32 (addr : Nat) (mask : Reg)
  | msr (r : Sysreg) (v : BitVec 64)
  /-- `mrs`, `|= v` and `msr` -/
  | orMsr (r : Sysreg) (v : BitVec 64)
  deriving DecidableEq

/-- An access, unless it waits. -/
def exec (g : Gic) : Stmt → Option Gic
  | .write32 addr v => (word addr).map fun w => g.write v w
  | .write8 addr v => (byte addr).map fun r => { g with config := g.config.writeByte v r }
  | .write64 addr v => (double addr).map fun n => { g with config := g.config.writeDouble v n }
  | .or32 addr v => (word addr).map fun w => g.write (g.read w ||| v) w
  | .and32 addr v => (word addr).map fun w => g.write (g.read w &&& v) w
  | .wait32 addr mask => (word addr).bind fun w => if g.read w &&& mask = 0 then some g else none
  | .msr r v => some { g with config := g.config.msr v r }
  | .orMsr r v => some { g with config := g.config.msr (g.config.mrs r ||| v) r }

/-! ### `gic.c` -/

def gic_wake_redistributor : List Stmt :=
  [.and32 (GICR_BASE + GICR_WAKER) (~~~(1#32 <<< 1)), .wait32 (GICR_BASE + GICR_WAKER) (1#32 <<< 2)]

def gic_enable_sre : List Stmt := [.orMsr .icc_sre_el1 1]

def gic_set_spi_priority (irq : Nat) (priority : BitVec 8) : List Stmt :=
  [.write8 (GICD_BASE + GICD_IPRIORITYR + irq) priority]

def gic_route_spi (irq : Nat) : List Stmt := [.write64 (GICD_BASE + GICD_IROUTER + irq * 8) 0]

def gic_enable_irq : List Stmt :=
  gic_wake_redistributor ++
    [.or32 (GICR_BASE + GICR_IGROUPR0) (1#32 <<< 30),
      .write8 (GICR_BASE + GICR_IPRIORITYR + 30) 0x80,
      .write32 (GICR_BASE + GICR_ISENABLER0) (1#32 <<< 30)] ++
    gic_route_spi 33 ++ gic_set_spi_priority 33 0x80 ++
    [.or32 (GICD_BASE + GICD_ISENABLER + UART_IRQ / 32 * 4) (1#32 <<< (UART_IRQ % 32)),
      .or32 (GICD_BASE + 0x0080 + 4 * (UART_IRQ / 32)) (1#32 <<< (UART_IRQ % 32)),
      .and32 (GICD_BASE + GICD_ICFGR + 4 * (UART_IRQ / 16)) (~~~(3#32 <<< (UART_IRQ % 16 * 2)))]

def gic_init : List Stmt :=
  gic_enable_sre ++
    [.write32 (GICD_BASE + GICD_CTLR) (1#32 <<< 0 ||| 1#32 <<< 1 ||| 1#32 <<< 4),
      .msr .icc_pmr_el1 0xff,
      .msr .icc_igrpen1_el1 1]

/-! ### The set-up as a system -/

/-- `todo` is what `main` has left of the set-up, and `pending` the interrupts whose line is asserted. -/
structure State where
  gic : Gic
  pending : Nat → Bool
  todo : List Stmt

inductive Action where
  | cpu
  | settle
  | line (id : Nat) (level : Bool)
  deriving DecidableEq

def step (s : State) : Action → Option State
  | .cpu =>
    match s.todo with
    | [] => none
    | stmt :: rest => (exec s.gic stmt).map fun g => { s with gic := g, todo := rest }
  | .settle => s.gic.settle.map fun g => { s with gic := g }
  | .line id level => some { s with pending := Function.update s.pending id level }

/-- The first two calls of `main`. -/
def program : List Stmt := gic_init ++ gic_enable_irq

/-- The calls start from any set-up before. -/
def system (before : Config) : System State Action where
  init s := s.gic.config = before ∧ s.todo = program
  step := step

/-! ### What the GIC delivers -/

namespace Config

def enabled (g : Config) (id : Nat) : Bool :=
  if id < 32 then g.gicr_isenabler0.getLsbD id else g.gicd_isenabler.bit id

def group1 (g : Config) (id : Nat) : Bool := if id < 32 then g.gicr_igroupr0.getLsbD id else g.gicd_igroupr.bit id

def priority (g : Config) (id : Nat) : BitVec 8 := if id < 32 then g.gicr_ipriorityr id else g.gicd_ipriorityr id

/-- The route of a shared interrupt is the CPU with affinity 0. -/
def routed (g : Config) (id : Nat) : Bool := decide (id < 32) || decide (g.gicd_irouter id = 0)

/-- The upper bit of the field. -/
def edge (g : Config) (id : Nat) : Bool := (g.gicd_icfgr.field id).getLsbD 1

end Config

/-- The CPU is signalled an IRQ for the interrupt. -/
structure Deliverable (s : State) (id : Nat) : Prop where
  pending : s.pending id = true
  enabled : s.gic.config.enabled id = true
  group1 : s.gic.config.group1 id = true
  routed : s.gic.config.routed id = true
  /-- A lower number is a higher priority. -/
  priority : (s.gic.config.priority id).toNat < s.gic.config.icc_pmr_el1.toNat
  distributor : s.gic.config.gicd_ctlr.getLsbD 1 = true
  interface : s.gic.config.icc_igrpen1_el1.getLsbD 0 = true ∧ s.gic.config.icc_sre_el1.getLsbD 0 = true
  awake : s.gic.asleep = false

end Armv8Driver.GicSetup
