import SomeIpGateway.ByteAccess
import SomeIpGateway.StreamScanning
import SomeIpGateway.FrameFormat
import SomeIpGateway.PacketCodec
import SomeIpGateway.McuEncoder
import SomeIpGateway.McuParser
import SomeIpGateway.McuChunking
import SomeIpGateway.ParserAgreement
import SomeIpGateway.StreamReading
import SomeIpGateway.CandidateScan
import SomeIpGateway.TlsReceive
import SomeIpGateway.Registration
import SomeIpGateway.PythonCodec
import SomeIpGateway.ClientRequests
import SomeIpGateway.PausedScanning
import SomeIpGateway.PythonReader
import SomeIpGateway.Sessions
import SomeIpGateway.StepMachine
import SomeIpGateway.ResourceOwnership
import SomeIpGateway.Connections
import SomeIpGateway.KeyedQueues
import SomeIpGateway.McuQueues
import SomeIpGateway.McuScheduling
import SomeIpGateway.DiagnosticTraffic
import SomeIpGateway.TrafficInvariant
import SomeIpGateway.DiagnosticAnswers
import SomeIpGateway.McuReceive
import SomeIpGateway.TlsTransport
import SomeIpGateway.McuTasks
import SomeIpGateway.McuBoot
import SomeIpGateway.RingBuffer
import SomeIpGateway.McuStreamBuffer
import SomeIpGateway.McuTransmit
import SomeIpGateway.ReadPrograms
import SomeIpGateway.McuHandlers
import SomeIpGateway.McuDispatch
import SomeIpGateway.McuBuffer
import SomeIpGateway.LoggedComputations
import SomeIpGateway.McuReads
import SomeIpGateway.CyclicChecks
import SomeIpGateway.CrcBursts
import SomeIpGateway.PwmDiagnosis
import SomeIpGateway.FixedWindow
import SomeIpGateway.TcpFloodGuard
import SomeIpGateway.TcpReceive
import SomeIpGateway.UartWriters
import SomeIpGateway.ClientPath
import SomeIpGateway.ServiceRequests
import SomeIpGateway.McuInput
import SomeIpGateway.AdcSampling
import SomeIpGateway.FrameRouting
import SomeIpGateway.UartInput
import SomeIpGateway.McuOutput
import SomeIpGateway.ServiceDelivery
import SomeIpGateway.GpioPorts
import SomeIpGateway.McuDevice
import SomeIpGateway.DiagnosisHistory
import SomeIpGateway.TypedTexts
import SomeIpGateway.SessionBlocking
import SomeIpGateway.PartialWrites
import SomeIpGateway.TlsWrites
import SomeIpGateway.PythonText
import SomeIpGateway.ServiceDiscovery
