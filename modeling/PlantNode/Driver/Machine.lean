import PlantNode.Driver.Reservations

/-!
# The driver as a machine of threads

A thread is at one program point of one driver call.  One action is one atomic
step: a clock tick, the start of a call, or the next section, transfer, delay
or wait of a thread.  Validation that reads no shared state belongs to the
start of the call.  The trace records what an observer of the bus and of the
reservation table sees; no step reads it.
-/

namespace PlantNode.Driver

/-! ## Calls -/

/-- A call of the driver.  The steps of `i2c_transact` are `none` when the pointer is null. -/
inductive Request where
  | transact (dev : I2CDevice) (steps : Option (List I2CStep)) (t : Timeout)
  | leaseAcquire (dev : I2CDevice) (durationMs : UInt32) (t : Timeout)
  | leaseRelease (dev : I2CDevice)
  deriving DecidableEq, Repr

/-- The loop of `i2c_transact` that computes the union of ops. -/
def needOps : List I2CStep → UInt8
  | [] => 0
  | s :: rest =>
      if s.kind = I2cWrite then I2C_OP_WRITE ||| needOps rest
      else if s.kind = I2cRead then I2C_OP_READ ||| needOps rest
      else needOps rest

/-- The loop of `i2c_transact` that validates lengths. -/
def lengthsOk (cap : I2CDeviceCap) (steps : List I2CStep) : Bool :=
  steps.all fun s ↦
    !((s.kind == I2cWrite || s.kind == I2cRead) && decide (cap.maxTransferLen < s.len))

/-- `i2c_transact`, up to the call of `reserve_device`. -/
def acceptBatch (dev : I2CDevice) (steps : Option (List I2CStep)) :
    Except Errno (I2CDeviceCap × List I2CStep) :=
  match steps with
  | none => .error .EINVAL
  | some [] => .error .EINVAL
  | some steps =>
      match authorize dev (needOps steps) with
      | .error e => .error e
      | .ok cap =>
          if !lengthsOk cap steps then .error .EINVAL
          else if cap.maxBatchMs = 0 then .error .EINVAL
          else .ok (cap, steps)

/-- `holdMs` in `i2c_lease_acquire`: clamped to the ceiling, and 0 means as long
as allowed. -/
def leaseHoldMs (cap : I2CDeviceCap) (durationMs : UInt32) : UInt32 :=
  let holdMs :=
    if cap.maxLeaseMs ≠ 0 ∧ cap.maxLeaseMs < durationMs then cap.maxLeaseMs else durationMs
  if holdMs = 0 then cap.maxLeaseMs else holdMs

/-- `i2c_lease_acquire`, up to the call of `reserve_device`: the capability and
`holdMs`. -/
def acceptLease (dev : I2CDevice) (durationMs : UInt32) : Except Errno (I2CDeviceCap × UInt32) :=
  match authorize dev 0 with
  | .error e => .error e
  | .ok cap =>
      if cap.flags &&& I2C_MAY_LEASE = 0 then .error .EPERM
      else if leaseHoldMs cap durationMs = 0 then .error .EINVAL
      else .ok (cap, leaseHoldMs cap durationMs)

/-- A call inside `reserve_device`: its arguments and, for a batch, the steps
that follow, `none` for a lease.  `call` numbers the calls of a run. -/
structure Claim where
  call : ℕ
  cap : I2CDeviceCap
  holdMs : ℕ
  steps : Option (List I2CStep)
  deriving DecidableEq, Repr

def Claim.isLease (c : Claim) : Bool := c.steps.isNone

def Claim.limitMs (c : Claim) : ℕ :=
  if c.isLease then c.cap.maxLeaseMs.toNat else c.cap.maxBatchMs.toNat

structure Batch where
  call : ℕ
  cap : I2CDeviceCap
  steps : List I2CStep
  deriving DecidableEq, Repr

/-! ## What is on the bus -/

inductive Direction where
  | write
  | read
  deriving DecidableEq, Repr

structure Transfer where
  call : ℕ
  thread : ThreadId
  address : UInt8
  direction : Direction
  len : UInt16
  ok : Bool
  deriving DecidableEq, Repr

/-- `do_transfer` puts nothing on the bus for such a step and returns `-EINVAL`. -/
def I2CStep.malformed (s : I2CStep) : Bool :=
  s.buffer.isNone || s.len == 0

def I2CStep.direction (s : I2CStep) : Direction :=
  if s.kind = I2cWrite then .write else .read

def Batch.transferOf (b : Batch) (me : ThreadId) (s : I2CStep) (ok : Bool) : Transfer :=
  ⟨b.call, me, b.cap.address, s.direction, s.len, ok⟩

/-- `do_transfer`: the transfer it issues, if any, and its result. -/
def doTransfer (b : Batch) (me : ThreadId) (s : I2CStep) (ok : Bool) : Option Transfer × Ret :=
  if s.malformed then (none, .error .EINVAL)
  else (some (b.transferOf me s ok), if ok then .ok () else .error .EIo)

/-! ## Threads -/

/-- Where a thread is.  In `reserve_device` it is at the head of the loop, between dropping the
lock and `futex_timed_wait`, in that wait, or behind a wait that returned an error; `seen` is
the entry that was owned by someone else.  A batch is `reserved` before `weHoldLease` is read,
`running` at the head of the step loop, `transferring` when its reservation was verified and
`do_transfer` is next, and `finishing` past the loop.  In `releasing` it is in
`i2c_lease_release`, before `release_device`. -/
inductive Pc where
  | idle
  | reserving (c : Claim) (t : Timeout)
  | waiting (c : Claim) (t : Timeout) (gen : UInt32) (seen : Reservation)
  | asleep (c : Claim) (t : Timeout) (since : ℕ) (seen : Reservation)
  | timedOut (c : Claim)
  | reserved (b : Batch)
  | running (b : Batch) (weHoldLease : Bool) (rest : List I2CStep)
  | transferring (b : Batch) (weHoldLease : Bool) (s : I2CStep) (rest : List I2CStep)
  | finishing (b : Batch) (weHoldLease : Bool) (result : Ret)
  | releasing (call : ℕ) (address : UInt8)
  deriving DecidableEq, Repr

/-- `futex_wake(&sReservationGen, -1)`, seen by one thread. -/
def Pc.onWake (now : ℕ) : Pc → Pc
  | .asleep c t since _ => .reserving c (t.elapse (now - since))
  | pc => pc

/-- The clock reaches `now`: a sleep whose timeout has run out ends. -/
def Pc.onTick (now : ℕ) : Pc → Pc
  | .asleep c t since seen =>
      if t.elapsed since now then .timedOut c else .asleep c t since seen
  | pc => pc

/-- What the trace records: a fresh claim is there with the slot and the entry written and the
tick, a batch is `entered` when `reserve_device` has returned 0 to `i2c_transact`, and a call is
`returned` when its last section is over and its result is fixed. -/
inductive Event where
  | called (call : ℕ) (me : ThreadId) (request : Request)
  | claimed (c : Claim) (slot : Slot) (entry : Reservation) (tick : ℕ)
  | entered (me : ThreadId) (b : Batch)
  | transfer (x : Transfer)
  | returned (call : ℕ) (me : ThreadId) (ret : Ret)
  deriving DecidableEq, Repr

/-! ## The machine -/

/-- `sInitialized` says that an earlier transfer has set up the controller, and `calls` is the
number of calls so far. -/
structure State where
  clock : ℕ
  reservations : Reservations
  sInitialized : Bool
  threads : ThreadId → Pc
  calls : ℕ
  trace : List Event

def State.boot : State :=
  ⟨0, .boot, false, fun _ ↦ .idle, 0, []⟩

namespace State

def setPc (s : State) (me : ThreadId) (pc : Pc) : State :=
  { s with threads := Function.update s.threads me pc }

def emit (s : State) (e : Event) : State :=
  { s with trace := s.trace ++ [e] }

/-- The end of a critical section that left the table `r`. -/
def commit (s : State) (r : Reservations) (woke : Bool) : State :=
  { s with
    reservations := r
    threads := if woke then fun u ↦ (s.threads u).onWake s.clock else s.threads }

def finish (s : State) (me : ThreadId) (call : ℕ) (ret : Ret) : State :=
  (s.emit (.returned call me ret)).setPc me .idle

/-- `reserve_device` returns 0. -/
def granted (s : State) (me : ThreadId) (c : Claim) : State :=
  match c.steps with
  | none => s.finish me c.call (.ok ())
  | some steps =>
      (s.emit (.entered me ⟨c.call, c.cap, steps⟩)).setPc me (.reserved ⟨c.call, c.cap, steps⟩)

end State

/-- A tick, a call, or the next atomic step of a thread; `ok` is the answer of the bus, if the
step is a transfer. -/
inductive Action where
  | tick
  | call (me : ThreadId) (request : Request)
  | run (me : ThreadId) (ok : Bool)
  deriving DecidableEq, Repr

/-- What a call validates before it shares anything: an error, or the program
point it starts from.  `id` is the number of the call. -/
def Request.start (id : ℕ) : Request → Except Errno Pc
  | .transact dev steps t =>
      match acceptBatch dev steps with
      | .error e => .error e
      | .ok (cap, steps) => .ok (.reserving ⟨id, cap, cap.maxBatchMs.toNat, some steps⟩ t)
  | .leaseAcquire dev durationMs t =>
      match acceptLease dev durationMs with
      | .error e => .error e
      | .ok (cap, holdMs) => .ok (.reserving ⟨id, cap, holdMs.toNat, none⟩ t)
  | .leaseRelease dev =>
      match authorize dev 0 with
      | .error e => .error e
      | .ok cap => .ok (.releasing id cap.address)

def State.opened (s : State) (me : ThreadId) (request : Request) : State :=
  { s with calls := s.calls + 1 }.emit (.called s.calls me request)

def startCall (s : State) (me : ThreadId) (request : Request) : State :=
  match request.start s.calls with
  | .error e => (s.opened me request).finish me s.calls (.error e)
  | .ok pc => (s.opened me request).setPc me pc

section Machine

variable (msToTicks : ℕ → ℕ)

/-- One pass of the loop of `reserve_device`, up to the wait. -/
def reserveStep (s : State) (me : ThreadId) (c : Claim) (t : Timeout) : State :=
  let (o, r, woke) :=
    reserveLocked msToTicks me c.cap.address c.holdMs c.isLease s.clock s.reservations
  let s := s.commit r woke
  match o with
  | .claimed slot entry => (s.emit (.claimed c slot entry s.clock)).granted me c
  | .full => s.finish me c.call (.error .EBUSY)
  | .reentrant => s.granted me c
  | .held gen seen => s.setPc me (.waiting c t gen seen)

/-- `futex_timed_wait`: compare the generation and go to sleep. -/
def waitStep (s : State) (me : ThreadId) (c : Claim) (t : Timeout) (gen : UInt32)
    (seen : Reservation) : State :=
  if s.reservations.sReservationGen ≠ gen then s.setPc me (.reserving c t)
  else if t = .ticks 0 then s.setPc me (.timedOut c)
  else s.setPc me (.asleep c t s.clock seen)

/-- The head of the step loop of `i2c_transact`.  During a delay the clock moves by ticks of its
own. -/
def loopStep (s : State) (me : ThreadId) (b : Batch) (weHoldLease : Bool)
    (rest : List I2CStep) : State :=
  match rest with
  | [] => s.setPc me (.finishing b weHoldLease (.ok ()))
  | step :: rest =>
      if step.kind = I2cDelay then
        s.setPc me (.running b weHoldLease rest)
      else if step.buffer.isNone then
        s.setPc me (.finishing b weHoldLease (.error .EINVAL))
      else
        let (ours, r, woke) := stillOursLocked me b.cap.address s.clock s.reservations
        let s := s.commit r woke
        if ours then s.setPc me (.transferring b weHoldLease step rest)
        else s.setPc me (.finishing b weHoldLease (.error .ETIMEDOUT))

/-- `do_transfer` under the bus lock, and the loop's test of its result. -/
def transferStep (s : State) (me : ThreadId) (b : Batch) (weHoldLease : Bool) (step : I2CStep)
    (rest : List I2CStep) (ok : Bool) : State :=
  match doTransfer b me step ok with
  | (none, ret) => s.setPc me (.finishing b weHoldLease ret)
  | (some x, ret) =>
      let s := { s with sInitialized := true }.emit (.transfer x)
      match ret with
      | .ok _ => s.setPc me (.running b weHoldLease rest)
      | .error e => s.setPc me (.finishing b weHoldLease (.error e))

def finishStep (s : State) (me : ThreadId) (b : Batch) (weHoldLease : Bool) (result : Ret) :
    State :=
  if weHoldLease then s.finish me b.call result
  else
    let (r, woke) := releaseLocked me b.cap.address s.reservations
    (s.commit r woke).finish me b.call result

/-- `release_device` in `i2c_lease_release`. -/
def releaseStep (s : State) (me : ThreadId) (call : ℕ) (address : UInt8) : State :=
  let (r, woke) := releaseLocked me address s.reservations
  (s.commit r woke).finish me call (.ok ())

def runThread (s : State) (me : ThreadId) (ok : Bool) : Option State :=
  match s.threads me with
  | .idle => none
  | .reserving c t => some (reserveStep msToTicks s me c t)
  | .waiting c t gen seen => some (waitStep s me c t gen seen)
  | .asleep .. => none
  | .timedOut c => some (s.finish me c.call (.error .ETIMEDOUT))
  | .reserved b =>
      some (s.setPc me (.running b (weHoldLeaseLocked b.cap.address s.reservations) b.steps))
  | .running b weHoldLease rest => some (loopStep s me b weHoldLease rest)
  | .transferring b weHoldLease step rest =>
      some (transferStep s me b weHoldLease step rest ok)
  | .finishing b weHoldLease result => some (finishStep s me b weHoldLease result)
  | .releasing call address => some (releaseStep s me call address)

/-- One atomic step.  The tick counter is monotone: it never wraps its 64 bits. -/
def step (s : State) : Action → Option State
  | .tick =>
      if s.clock + 1 < 2 ^ 64 then
        some { s with
          clock := s.clock + 1
          threads := fun u ↦ (s.threads u).onTick (s.clock + 1) }
      else none
  | .call me request =>
      if s.threads me = .idle then some (startCall s me request) else none
  | .run me ok => runThread msToTicks s me ok

end Machine

end PlantNode.Driver
