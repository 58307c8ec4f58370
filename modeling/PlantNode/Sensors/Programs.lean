import PlantNode.Driver.Capacity
import PlantNode.Foundation.Client
import PlantNode.Sensors.Aht20

/-!
# The sensor compartments

`moisture_sensor.cc` and `temperature_sensor.cc` as programs that call the driver.  A result
goes through the pointers of the caller only when the call returns 0.
-/

namespace PlantNode.Sensors

open Driver Foundation

/-! ## Calls of the driver -/

def moistureI2cCap : I2CDeviceCap := ⟨0x36, I2C_OP_READ ||| I2C_OP_WRITE, 0, 8, 20, 0⟩

def tempI2cCap : I2CDeviceCap := ⟨0x38, I2C_OP_READ ||| I2C_OP_WRITE, 0, 8, 150, 0⟩

/-- What a compartment asks of the driver and of its own state: `thread_millisecond_wait` and
the latch `sInitialized` of the temperature sensor. -/
inductive Op where
  | transact (request : Request)
  | wait (ms : ℕ)
  | getInitialized
  | setInitialized

/-- What a driver call answers: its return value and the buffer that it read into.  `call` is
the number of the call in the driver; no program reads it. -/
structure Answer where
  call : ℕ
  ret : Ret
  buffer : ℕ → UInt8

abbrev Op.Ans : Op → Type
  | .transact _ => Answer
  | .wait _ => Unit
  | .getInitialized => Bool
  | .setInitialized => Unit

abbrev Code (α : Type) := Prog Op Op.Ans α

def perform (o : Op) : Code o.Ans := Prog.perform o

def transact (dev : I2CDevice) (steps : List I2CStep) : Code (Ret × (ℕ → UInt8)) := do
  let answer ← perform (.transact (.transact dev (some steps) .unlimited))
  return (answer.ret, answer.buffer)

def UINT16_MAX : ℕ := 65535

/-- `i2c_write` -/
def i2cWrite (dev : I2CDevice) (d : Option ℕ) (len : ℕ) : Code Ret :=
  if UINT16_MAX < len then return .error .EINVAL
  else do
    let (ret, _) ← transact dev [⟨I2cWrite, len.toUInt16, 0, d⟩]
    return ret

/-- `i2c_read` -/
def i2cRead (dev : I2CDevice) (d : Option ℕ) (len : ℕ) : Code (Ret × (ℕ → UInt8)) :=
  if UINT16_MAX < len then return (.error .EINVAL, fun _ ↦ 0)
  else transact dev [⟨I2cRead, len.toUInt16, 0, d⟩]

/-! ## Buffers -/

def KSeesawTouchBase : UInt8 := 0x0F

def KSeesawTouchCh0 : UInt8 := 0x10

/-- `cmd` of `moisture_read_raw` -/
def touchCommand : List UInt8 := [KSeesawTouchBase, KSeesawTouchCh0]

def KCmdInit : List UInt8 := [0xBE, 0x08, 0x00]

def KCmdTrigger : List UInt8 := [0xAC, 0x33, 0x00]

/-- The pointers to `cmd`, `buf` and `status` on the stack of a thread, and to the two constant
arrays. -/
def cmdAt : ℕ := 1

def bufAt : ℕ := 2

def statusAt : ℕ := 3

def initAt : ℕ := 4

def triggerAt : ℕ := 5

/-- What is behind a pointer that is written from. -/
def memory (pointer : ℕ) : List UInt8 :=
  if pointer = cmdAt then touchCommand
  else if pointer = initAt then KCmdInit
  else if pointer = triggerAt then KCmdTrigger
  else []

/-! ## The moisture sensor -/

def KCalDry : UInt16 := 400

def KCalWet : UInt16 := 1800

/-- `moisture_read_raw` -/
def moistureReadRaw (rawOut : Bool) : Code (Except Errno UInt16) :=
  if !rawOut then return .error .EINVAL
  else do
    let (ret, buf) ← transact (some moistureI2cCap)
      [⟨I2cWrite, touchCommand.length.toUInt16, 0, some cmdAt⟩, ⟨I2cDelay, 0, 2, none⟩,
        ⟨I2cRead, 2, 0, some bufAt⟩]
    match ret with
    | .error e => return .error e
    | .ok _ => return .ok ((buf 0).toUInt16 <<< 8 ||| (buf 1).toUInt16)

/-- The conversion of `moisture_read_percent`. -/
def percentOf (raw : UInt16) : UInt8 :=
  if raw ≤ KCalDry then 0
  else if KCalWet ≤ raw then 100
  else ((raw - KCalDry).toUInt32 * 100 / (KCalWet - KCalDry).toUInt32).toUInt8

/-- `moisture_read_percent` -/
def moistureReadPercent (percentOut : Bool) : Code (Except Errno UInt8) :=
  if !percentOut then return .error .EINVAL
  else do
    match ← moistureReadRaw true with
    | .error e => return .error e
    | .ok raw => return .ok (percentOf raw)

/-! ## The temperature sensor -/

def KStatusBusy : UInt8 := (1 : UInt8) <<< 7

def KStatusCalibrated : UInt8 := (1 : UInt8) <<< 3

/-- `ensure_calibrated` -/
def ensureCalibrated : Code Ret := do
  let (ret, status) ← i2cRead (some tempI2cCap) (some statusAt) 1
  match ret with
  | .error e => return .error e
  | .ok _ =>
      if status 0 &&& KStatusCalibrated = 0 then
        match ← i2cWrite (some tempI2cCap) (some initAt) KCmdInit.length with
        | .error e => return .error e
        | .ok _ =>
            perform (.wait 10)
            return .ok ()
      else return .ok ()

/-- `do_measurement`, with the buffer it fills. -/
def doMeasurement : Code (Except Errno (Vector UInt8 6)) := do
  let (ret, buf) ← transact (some tempI2cCap)
    [⟨I2cWrite, KCmdTrigger.length.toUInt16, 0, some triggerAt⟩, ⟨I2cDelay, 0, 85, none⟩,
      ⟨I2cRead, 6, 0, some bufAt⟩]
  match ret with
  | .error e => return .error e
  | .ok _ =>
      if buf 0 &&& KStatusBusy ≠ 0 then return .error .EBUSY
      else return .ok (Vector.ofFn fun i ↦ buf i)

/-- `temperature_read_both` past the check of the latch. -/
def measureBoth (celsiusX10Out humidityRx10Out : Bool) :
    Code (Except Errno (Option Int16 × Option UInt16)) := do
  match ← doMeasurement with
  | .error e => return .error e
  | .ok buf => return .ok (Aht20.parseMeasurement buf celsiusX10Out humidityRx10Out)

/-- `temperature_read_both`; each argument says whether that pointer is not null. -/
def temperatureReadBoth (celsiusX10Out humidityRx10Out : Bool) :
    Code (Except Errno (Option Int16 × Option UInt16)) :=
  if !celsiusX10Out && !humidityRx10Out then return .error .EINVAL
  else do
    if ← perform .getInitialized then measureBoth celsiusX10Out humidityRx10Out
    else
      match ← ensureCalibrated with
      | .error e => return .error e
      | .ok _ =>
          perform .setInitialized
          measureBoth celsiusX10Out humidityRx10Out

/-- `temperature_read_celsius_x10` -/
def temperatureReadCelsiusX10 (celsiusX10Out : Bool) :
    Code (Except Errno (Option Int16 × Option UInt16)) :=
  temperatureReadBoth celsiusX10Out false

end PlantNode.Sensors
