import PlantNode.Foundation.Run
import PlantNode.Foundation.SlotScan
import PlantNode.Foundation.Mask
import PlantNode.Foundation.Decimal
import PlantNode.Foundation.IntText
import PlantNode.Foundation.DigitLoop
import PlantNode.Foundation.Json
import PlantNode.Foundation.JsonObjects
import PlantNode.Foundation.JsonIntegers
import PlantNode.Foundation.JsonText
import PlantNode.Foundation.LittleEndian
import PlantNode.Foundation.Latch
import PlantNode.Foundation.Rules
import PlantNode.Foundation.Hex
import PlantNode.Foundation.Quoted
import PlantNode.Foundation.JsonTree
import PlantNode.Foundation.JsonMarkers
import PlantNode.Foundation.OnePlace
import PlantNode.Foundation.Client
import PlantNode.Foundation.Csv
import PlantNode.Basic
import PlantNode.Driver.Types
import PlantNode.Driver.Reservations
import PlantNode.Driver.Exclusion
import PlantNode.Driver.Machine
import PlantNode.Driver.Transitions
import PlantNode.Driver.Calls
import PlantNode.Driver.Ledger
import PlantNode.Driver.Alone
import PlantNode.Driver.Origins
import PlantNode.Driver.SoloRun
import PlantNode.Driver.Confinement
import PlantNode.Driver.Sleepers
import PlantNode.Driver.TableSteps
import PlantNode.Driver.Lockout
import PlantNode.Driver.Serial
import PlantNode.Driver.Ownership
import PlantNode.Driver.Callers
import PlantNode.Driver.Rejection
import PlantNode.Driver.HoldTime
import PlantNode.Driver.Capacity
import PlantNode.Driver.Served
import PlantNode.Driver.Device
import PlantNode.Driver.Independence
import PlantNode.Driver.Interleaving
import PlantNode.Driver.Wakeups
import PlantNode.Policy.Parser
import PlantNode.Policy.Update
import PlantNode.Policy.Convergence
import PlantNode.Policy.Reads
import PlantNode.Crypto.SecretBox
import PlantNode.Crypto.Serialise
import PlantNode.Crypto.Session
import PlantNode.Charter.Encryption
import PlantNode.Crypto.Telemetry
import PlantNode.Charter.Commands
import PlantNode.Charter.RoundTrip
import PlantNode.Charter.Attestation
import PlantNode.Charter.Messages
import PlantNode.Charter.MessageIds
import PlantNode.Charter.Watering
import PlantNode.Charter.Plotter
import PlantNode.Charter.Outputs
import PlantNode.Comms.Callback
import PlantNode.Comms.Machine
import PlantNode.Comms.ReceivePath
import PlantNode.Comms.Bounds
import PlantNode.Comms.Calls
import PlantNode.Comms.Steps
import PlantNode.Comms.Waiting
import PlantNode.Comms.Slot
import PlantNode.Comms.Completion
import PlantNode.Comms.Acks
import PlantNode.Comms.EarlySuccess
import PlantNode.Telemetry.Query
import PlantNode.Telemetry.Machine
import PlantNode.Telemetry.Steps
import PlantNode.Telemetry.Mailbox
import PlantNode.Telemetry.Drain
import PlantNode.Telemetry.Gate
import PlantNode.Telemetry.KeyPacket
import PlantNode.Telemetry.DeadEnds
import PlantNode.Telemetry.Connection
import PlantNode.Protocol.System
import PlantNode.Protocol.Authenticity
import PlantNode.Protocol.Nonces
import PlantNode.Protocol.Attestation
import PlantNode.Protocol.Exchange
import PlantNode.Protocol.Meaning
import PlantNode.Protocol.Staleness
import PlantNode.Protocol.Operator
import PlantNode.Irrigation.Loop
import PlantNode.Irrigation.Pulse
import PlantNode.Sensors.Aht20
import PlantNode.Sensors.Programs
import PlantNode.Sensors.Machine
import PlantNode.Sensors.Contracts
import PlantNode.Sensors.Wire
import PlantNode.Sensors.Bus
import PlantNode.Display.Readings
import PlantNode.Audit.Firmware
import PlantNode.Audit.Mmio
import PlantNode.Audit.Caps
import PlantNode.Audit.Handles
import PlantNode.Audit.Exports
import PlantNode.Audit.Isolation
import PlantNode.Plant.System
import PlantNode.Plant.Refinement
import PlantNode.Plant.Pump
import PlantNode.Plant.Readings
import PlantNode.Plant.Delivery
import PlantNode.Plant.Recovery
import PlantNode.Plant.Threads
import PlantNode.Plant.Mock
import PlantNode.Plant.Order
