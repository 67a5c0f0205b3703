import ProviderSdk.Lib.Text
import ProviderSdk.Lib.StreamCode
import ProviderSdk.Lib.Floating
import ProviderSdk.Lib.Traced
import ProviderSdk.Lib.Labelled
import ProviderSdk.Lib.Pattern
import ProviderSdk.Lib.Numeral
import ProviderSdk.Lib.Walk
import ProviderSdk.Lib.JsonSchema
import ProviderSdk.Lib.SchemaForm
import ProviderSdk.Bytes
import ProviderSdk.Transport
import ProviderSdk.Messages
import ProviderSdk.CallValidation
import ProviderSdk.Runtime
import ProviderSdk.Handlers
import ProviderSdk.CallPolicy
import ProviderSdk.RunLoop
import ProviderSdk.Wire
import ProviderSdk.Answers
import ProviderSdk.Session
import ProviderSdk.HelloGate
import ProviderSdk.ClientView
import ProviderSdk.Scalar
import ProviderSdk.CoreSchema
import ProviderSdk.Declaration
import ProviderSdk.SchemaCheck
import ProviderSdk.Validate
import ProviderSdk.Contract
import ProviderSdk.FieldContract
import ProviderSdk.Locations
import ProviderSdk.Extraction
import ProviderSdk.Emission
import ProviderSdk.EmittedField
import ProviderSdk.EmittedContainer
import ProviderSdk.Agreement
import ProviderSdk.CheckedTree
import ProviderSdk.StartupStory
import ProviderSdk.Lib.JsonText
import ProviderSdk.WellFormedSchema
import ProviderSdk.Envelope
import ProviderSdk.FaultInjection
import ProviderSdk.FaultSchedule
import ProviderSdk.FaultTransparency
import ProviderSdk.LinuxI2cBus
import ProviderSdk.AttemptCounts
import ProviderSdk.Claims
import ProviderSdk.I2cClaims
import ProviderSdk.HostCheck
import ProviderSdk.ExitCodes
import ProviderSdk.OutOfRange
import ProviderSdk.CallRules
import ProviderSdk.Lib.Chain
import ProviderSdk.HonestValues
import ProviderSdk.LiveBranches
import ProviderSdk.TransferLengths
import ProviderSdk.HealthCoverage
import ProviderSdk.ReadPolicy
import ProviderSdk.SmallErrors
import ProviderSdk.ReadMutation
import ProviderSdk.ClaimRuns
import ProviderSdk.Lib.Strtoul
import ProviderSdk.FaultQuery
import ProviderSdk.RetryBudget
import ProviderSdk.Escalation
import ProviderSdk.Lib.Reading
import ProviderSdk.Recognisers
import ProviderSdk.FieldCalls
import ProviderSdk.Lib.Triple
import ProviderSdk.Guarantees
import ProviderSdk.Lib.FloatingArithmetic
import ProviderSdk.ReferenceProvider
import ProviderSdk.ReferenceRuns
import ProviderSdk.ReferenceEnergy
import ProviderSdk.ReferenceConfig
import ProviderSdk.KeyOrder
import ProviderSdk.Lib.Erasure
import ProviderSdk.FileDescriptors
import ProviderSdk.ReadWindow
import ProviderSdk.HostRequirements
import ProviderSdk.DecoratedLinux
import ProviderSdk.Lib.Mutex
import ProviderSdk.StatsThreads
import ProviderSdk.Logging
import ProviderSdk.BusQuery
import ProviderSdk.Builders
