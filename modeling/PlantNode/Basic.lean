import Mathlib.Algebra.Group.Nat.Defs
import Mathlib.Control.Monad.Basic

/-!
# Error codes and shared plain data

An `int` result of the firmware is `Except.ok ()` for `0` and `Except.error e`
for `-e`.
-/

namespace PlantNode

/-- The `errno.h` codes the firmware returns; `EIo` is `EIO`. -/
inductive Errno where
  | EPERM
  | ENOENT
  | EIo
  | ENOMEM
  | EBUSY
  | EINVAL
  | ENOSYS
  | EBADMSG
  | EALREADY
  | ETIMEDOUT
  | ENOTCONN
  deriving DecidableEq, Repr

abbrev Ret := Except Errno Unit

structure SensorReading where
  moistureRaw : UInt16
  temperatureCx10 : Int16
  humidityRx10 : UInt16
  timestamp : UInt32
  lastWatering : UInt32
  valid : Bool
  deriving DecidableEq, Repr

end PlantNode
