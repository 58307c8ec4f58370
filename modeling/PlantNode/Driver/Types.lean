import PlantNode.Basic

/-!
# Capabilities, steps and timeouts of the I2C driver

The fields keep the widths of `i2c_driver.h`.  A sealed handle is what
`token_unseal` makes of it: the capability, or nothing when the handle is not
sealed under `I2CDeviceKey`.
-/

namespace PlantNode.Driver

abbrev ThreadId := ℕ

def I2C_OP_READ : UInt8 := 1
def I2C_OP_WRITE : UInt8 := 2
def I2C_MAY_LEASE : UInt8 := 1

structure I2CDeviceCap where
  address : UInt8
  opsMask : UInt8
  flags : UInt8
  maxTransferLen : UInt16
  maxBatchMs : UInt16
  maxLeaseMs : UInt32
  deriving DecidableEq, Repr

abbrev I2CDevice := Option I2CDeviceCap

/-! The three values of `I2CStepKind`; the field itself is any byte. -/

def I2cWrite : UInt8 := 0
def I2cRead : UInt8 := 1
def I2cDelay : UInt8 := 2

/-- One step of a batch.  `buffer` is a pointer, `none` when it is null. -/
structure I2CStep where
  kind : UInt8
  len : UInt16
  delayMs : UInt16
  buffer : Option ℕ
  deriving DecidableEq, Repr

/-- The ticks a `Timeout` has left. -/
inductive Timeout where
  | ticks (remaining : ℕ)
  | unlimited
  deriving DecidableEq, Repr

def Timeout.elapse (d : ℕ) : Timeout → Timeout
  | .ticks n => .ticks (n - d)
  | .unlimited => .unlimited

/-- Has a sleep begun at tick `since` run out at tick `now`? -/
def Timeout.elapsed (since now : ℕ) : Timeout → Bool
  | .ticks n => decide (since + n ≤ now)
  | .unlimited => false

/-- `authorize`: unseal `dev` and check that it grants every bit of `needOps`. -/
def authorize (dev : I2CDevice) (needOps : UInt8) : Except Errno I2CDeviceCap :=
  match dev with
  | none => .error .EPERM
  | some cap => if cap.opsMask &&& needOps ≠ needOps then .error .EPERM else .ok cap

end PlantNode.Driver
