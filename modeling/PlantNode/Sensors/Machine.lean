import PlantNode.Driver.Served
import PlantNode.Sensors.Programs

/-!
# The sensors on the driver

Any number of threads in the sensor compartments, each with a program that calls the driver.
The wire has every transfer with the bytes that it carried: a write carries what the buffer of
its step holds, a read what the device sends.  The log has every operation that was answered,
with its thread, in order; no step reads it.
-/

namespace PlantNode.Sensors

open Driver Foundation

/-- What a sensor hands out. -/
inductive Reading where
  | both (celsiusX10 : Option Int16) (humidityRx10 : Option UInt16)
  | raw (raw : UInt16)
  | percent (percent : UInt8)
  deriving DecidableEq, Repr

/-- The entry points of the compartments, each with the pointers that are not null. -/
inductive Entry where
  | both (celsiusX10Out humidityRx10Out : Bool)
  | celsius (celsiusX10Out : Bool)
  | raw (rawOut : Bool)
  | percent (percentOut : Bool)
  deriving DecidableEq, Repr

def Entry.code : Entry → Code (Except Errno Reading)
  | .both c h => do
      let result ← temperatureReadBoth c h
      return result.map fun out ↦ .both out.1 out.2
  | .celsius c => do
      let result ← temperatureReadCelsiusX10 c
      return result.map fun out ↦ .both out.1 out.2
  | .raw out => do
      let result ← moistureReadRaw out
      return result.map .raw
  | .percent out => do
      let result ← moistureReadPercent out
      return result.map .percent

/-! ## Bytes on the bus -/

/-- A transfer and the bytes that it carried. -/
structure Passage where
  transfer : Transfer
  bytes : List UInt8
  deriving DecidableEq, Repr

/-- The bytes that a step writes, or those of the bytes `sent` by the device that it reads. -/
def carried (st : I2CStep) (sent : ℕ → UInt8) : List UInt8 :=
  match st.direction with
  | .write => (memory (st.buffer.getD 0)).take st.len.toNat
  | .read => (List.range st.len.toNat).map sent

/-- What a step of the driver puts on the bus. -/
def passage? (driver : Driver.State) (a : Driver.Action) (sent : ℕ → UInt8) : Option Passage :=
  match a with
  | .run me ok =>
      match driver.threads me with
      | .transferring b _ st _ => (doTransfer b me st ok).1.map fun x ↦ ⟨x, carried st sent⟩
      | _ => none
  | _ => none

/-- The buffer that a call reads into: zeros, then the bytes of its last read. -/
def bufferOf (call : ℕ) (wire : List Passage) (i : ℕ) : UInt8 :=
  let reads := wire.filter fun p ↦ p.transfer.call == call && p.transfer.direction == .read
  (reads.getLast?.elim [] Passage.bytes).getD i 0

/-! ## The machine -/

/-- A thread in the driver has the number of its call. -/
inductive Activity where
  | ready
  | calling (call : ℕ)
  | sleeping (deadline : ℕ)
  deriving DecidableEq, Repr

/-- A call of an entry point: what it has done and what is left of it. -/
structure Task where
  entry : Entry
  talk : List (Turn Op.Ans)
  rest : Code (Except Errno Reading)
  activity : Activity

structure Finished where
  thread : ThreadId
  entry : Entry
  talk : List (Turn Op.Ans)
  result : Except Errno Reading

structure State where
  driver : Driver.State
  wire : List Passage
  sInitialized : Bool
  tasks : ThreadId → Option Task
  log : List (ThreadId × Turn Op.Ans)
  finished : List Finished

def State.boot : State := ⟨.boot, [], false, fun _ ↦ none, [], []⟩

namespace State

def setTask (s : State) (me : ThreadId) (task : Option Task) : State :=
  { s with tasks := Function.update s.tasks me task }

/-- An operation of `me` is answered. -/
def answer (s : State) (me : ThreadId) (task : Task) (turn : Turn Op.Ans)
    (rest : Code (Except Errno Reading)) : State :=
  { s.setTask me (some ⟨task.entry, task.talk ++ [turn], rest, .ready⟩) with
    log := s.log ++ [(me, turn)] }

def finish (s : State) (me : ThreadId) (task : Task) (result : Except Errno Reading) : State :=
  { s.setTask me none with
    finished := s.finished ++ [⟨me, task.entry, task.talk, result⟩] }

end State

/-- What call `call` of the driver returned. -/
def returnOf (call : ℕ) (trace : List Event) : Option Ret :=
  trace.findSome? fun e ↦
    match e with
    | .returned id _ ret => if id = call then some ret else none
    | _ => none

/-- A tick, the start of a call, the next step of a task, and the next step of a thread inside
the driver with the answer of the bus. -/
inductive Action where
  | tick
  | enter (me : ThreadId) (entry : Entry)
  | act (me : ThreadId)
  | run (me : ThreadId) (ok : Bool) (sent : ℕ → UInt8)

section Machine

variable (msToTicks : ℕ → ℕ)

def drive (s : State) (a : Driver.Action) (sent : ℕ → UInt8) : Option State :=
  (Driver.step msToTicks s.driver a).map fun driver ↦
    { s with driver, wire := s.wire ++ (passage? s.driver a sent).toList }

def act (s : State) (me : ThreadId) (task : Task) : Option State :=
  match task.rest, task.activity with
  | .pure result, _ => some (s.finish me task result)
  | .op (.transact request) _, .ready =>
      (drive msToTicks s (.call me request) fun _ ↦ 0).map fun t ↦
        t.setTask me (some { task with activity := .calling s.driver.calls })
  | .op (.transact request) next, .calling call =>
      (returnOf call s.driver.trace).map fun ret ↦
        s.answer me task ⟨.transact request, call, ret, bufferOf call s.wire⟩
          (next ⟨call, ret, bufferOf call s.wire⟩)
  | .op (.wait ms) _, .ready =>
      some (s.setTask me
        (some { task with activity := .sleeping (s.driver.clock + msToTicks ms) }))
  | .op (.wait ms) next, .sleeping deadline =>
      if deadline ≤ s.driver.clock then some (s.answer me task ⟨.wait ms, ()⟩ (next ())) else none
  | .op .getInitialized next, _ =>
      some (s.answer me task ⟨.getInitialized, s.sInitialized⟩ (next s.sInitialized))
  | .op .setInitialized next, _ =>
      some ({ s with sInitialized := true }.answer me task ⟨.setInitialized, ()⟩ (next ()))
  | _, _ => none

def step (s : State) : Action → Option State
  | .tick => drive msToTicks s .tick fun _ ↦ 0
  | .enter me entry =>
      if (s.tasks me).isNone then some (s.setTask me (some ⟨entry, [], entry.code, .ready⟩))
      else none
  | .act me => (s.tasks me).bind fun task ↦ act msToTicks s me task
  | .run me ok sent => drive msToTicks s (.run me ok) sent

end Machine

end PlantNode.Sensors
