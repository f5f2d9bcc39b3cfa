import ViewerCircuit.Address
import ViewerCircuit.Address.Reading
import ViewerCircuit.Circuit.Basic
import ViewerCircuit.Circuit.Notice
import ViewerCircuit.Circuit.Receiving
import ViewerCircuit.Circuit.Sending
import ViewerCircuit.Circuit.Settings
import ViewerCircuit.Circuit.Step
import ViewerCircuit.Config
import ViewerCircuit.Dispatch.Handler
import ViewerCircuit.Dispatch.Registry
import ViewerCircuit.Endpoint.Basic
import ViewerCircuit.Endpoint.MalformedLog
import ViewerCircuit.Geometry
import ViewerCircuit.Login
import ViewerCircuit.Message.Basic
import ViewerCircuit.Message.Format
import ViewerCircuit.Message.Kind
import ViewerCircuit.Message.Number
import ViewerCircuit.Number.Binary
import ViewerCircuit.Number.Decimal
import ViewerCircuit.Number.F32
import ViewerCircuit.Outbound.Batch
import ViewerCircuit.Outbound.Messages
import ViewerCircuit.Outbound.Quantize
import ViewerCircuit.Outbound.Terse
import ViewerCircuit.Packet.Basic
import ViewerCircuit.Packet.Wire
import ViewerCircuit.Pool.Buffers
import ViewerCircuit.Pool.Packets
import ViewerCircuit.Proofs.AckBookkeeping
import ViewerCircuit.Proofs.AckConservation
import ViewerCircuit.Proofs.Batches
import ViewerCircuit.Proofs.Budgets
import ViewerCircuit.Proofs.CallTraffic
import ViewerCircuit.Proofs.Carriage
import ViewerCircuit.Proofs.Course
import ViewerCircuit.Proofs.CourseMoves
import ViewerCircuit.Proofs.CourseRun
import ViewerCircuit.Proofs.DatagramEdits
import ViewerCircuit.Proofs.Deeds
import ViewerCircuit.Proofs.Dispatching
import ViewerCircuit.Proofs.DoubleArithmetic
import ViewerCircuit.Proofs.DoubleConversions
import ViewerCircuit.Proofs.DoubleOrder
import ViewerCircuit.Proofs.Doubles
import ViewerCircuit.Proofs.Duplicates
import ViewerCircuit.Proofs.GrantedRates
import ViewerCircuit.Proofs.HandlerFailures
import ViewerCircuit.Proofs.HeldPackets
import ViewerCircuit.Proofs.InFlightAccounts
import ViewerCircuit.Proofs.InFlightCalls
import ViewerCircuit.Proofs.InFlightMoves
import ViewerCircuit.Proofs.Inbound
import ViewerCircuit.Proofs.Layouts
import ViewerCircuit.Proofs.Lifecycle
import ViewerCircuit.Proofs.Liveness
import ViewerCircuit.Proofs.MalformedReports
import ViewerCircuit.Proofs.MessageArrival
import ViewerCircuit.Proofs.NumberCode
import ViewerCircuit.Proofs.NumberReuse
import ViewerCircuit.Proofs.OldestUnacked
import ViewerCircuit.Proofs.Orderly
import ViewerCircuit.Proofs.Outbound
import ViewerCircuit.Proofs.OwedAckCalls
import ViewerCircuit.Proofs.OwnSteps
import ViewerCircuit.Proofs.PacketArrival
import ViewerCircuit.Proofs.Piggybacking
import ViewerCircuit.Proofs.PoolRuns
import ViewerCircuit.Proofs.PooledPackets
import ViewerCircuit.Proofs.QueueDelivery
import ViewerCircuit.Proofs.QueueRun
import ViewerCircuit.Proofs.QueueSearch
import ViewerCircuit.Proofs.QueueSleep
import ViewerCircuit.Proofs.RateConformance
import ViewerCircuit.Proofs.Reception
import ViewerCircuit.Proofs.Reencoding
import ViewerCircuit.Proofs.RememberedSources
import ViewerCircuit.Proofs.Repetition
import ViewerCircuit.Proofs.ResendCopies
import ViewerCircuit.Proofs.ResendSchedule
import ViewerCircuit.Proofs.Retransmission
import ViewerCircuit.Proofs.RoundRobin
import ViewerCircuit.Proofs.Rounding
import ViewerCircuit.Proofs.Routing
import ViewerCircuit.Proofs.Run
import ViewerCircuit.Proofs.SequenceNumbers
import ViewerCircuit.Proofs.Service
import ViewerCircuit.Proofs.ShortestCoding
import ViewerCircuit.Proofs.Sightings
import ViewerCircuit.Proofs.SpreadLists
import ViewerCircuit.Proofs.StandaloneAcks
import ViewerCircuit.Proofs.StepTraffic
import ViewerCircuit.Proofs.StrictReading
import ViewerCircuit.Proofs.Tables
import ViewerCircuit.Proofs.TextArrival
import ViewerCircuit.Proofs.TextFields
import ViewerCircuit.Proofs.Traffic
import ViewerCircuit.Proofs.TransportFaults
import ViewerCircuit.Proofs.WireSilence
import ViewerCircuit.Proofs.ZeroRuns
import ViewerCircuit.Reliability.AckState
import ViewerCircuit.Reliability.Duplicates
import ViewerCircuit.Reliability.InFlight
import ViewerCircuit.Reliability.Numbering
import ViewerCircuit.Reliability.OwedAcks
import ViewerCircuit.Simulation.Basic
import ViewerCircuit.Simulation.Consumer
import ViewerCircuit.Simulation.Run
import ViewerCircuit.Table
import ViewerCircuit.Text.Field
import ViewerCircuit.Text.Utf8
import ViewerCircuit.Throttle.Arithmetic
import ViewerCircuit.Throttle.Bucket
import ViewerCircuit.Throttle.Category
import ViewerCircuit.Throttle.Queue
import ViewerCircuit.Throttle.Rates
import ViewerCircuit.Time
import ViewerCircuit.Uuid
import ViewerCircuit.ViewerEvent
import ViewerCircuit.Wire.Codec
import ViewerCircuit.Wire.Error
import ViewerCircuit.ZeroCoding
