import ProvisioningValidator.Lib.Text
import ProvisioningValidator.Lib.Shuffle
import ProvisioningValidator.Lib.OrdMap
import ProvisioningValidator.Lib.Regex
import ProvisioningValidator.Lib.Run
import ProvisioningValidator.Lib.Json
import ProvisioningValidator.Lib.Members
import ProvisioningValidator.Lib.Shape
import ProvisioningValidator.Constants
import ProvisioningValidator.Types
import ProvisioningValidator.Paths
import ProvisioningValidator.Errors
import ProvisioningValidator.Formats
import ProvisioningValidator.SliceRules
import ProvisioningValidator.SubscriptionRules
import ProvisioningValidator.SmsRules
import ProvisioningValidator.Apply
import ProvisioningValidator.ApplyProof
import ProvisioningValidator.SliceReferences
import ProvisioningValidator.Readers
import ProvisioningValidator.SliceReaders
import ProvisioningValidator.StaticReaders
import ProvisioningValidator.Parser
import ProvisioningValidator.Encoder
import ProvisioningValidator.Server
import ProvisioningValidator.KindAgreement
import ProvisioningValidator.VariantAccess
import ProvisioningValidator.ReaderRules
import ProvisioningValidator.Shapes
import ProvisioningValidator.Conformance
import ProvisioningValidator.Requests
import ProvisioningValidator.Documents
import ProvisioningValidator.AccessorSafety
import ProvisioningValidator.Answers
import ProvisioningValidator.AllOrNothing
import ProvisioningValidator.Lib.Repeats
import ProvisioningValidator.SliceUpdates
import ProvisioningValidator.UpdateTolerance
import ProvisioningValidator.Independence
import ProvisioningValidator.Entities
import ProvisioningValidator.ReaderOutcomes
import ProvisioningValidator.AssignedFields
import ProvisioningValidator.SetReadings
import ProvisioningValidator.AcceptedFormats
import ProvisioningValidator.SubscriberLookup
import ProvisioningValidator.Deletions
import ProvisioningValidator.TypeErrors
import ProvisioningValidator.VendorValues
import ProvisioningValidator.MemberOrder
import ProvisioningValidator.Determinacy
import ProvisioningValidator.SliceRepetitions
import ProvisioningValidator.WellFormedSets
import ProvisioningValidator.AcceptedChanges
import ProvisioningValidator.Redelivery
import ProvisioningValidator.Batches
import ProvisioningValidator.Lib.Pieces
import ProvisioningValidator.StaticAddresses
import ProvisioningValidator.AcceptableChanges
import ProvisioningValidator.ReadValues
import ProvisioningValidator.SliceDataReferences
import ProvisioningValidator.ArrayReaders
import ProvisioningValidator.ArrayElements
import ProvisioningValidator.SmsRoundTrip
import ProvisioningValidator.Lib.Search
import ProvisioningValidator.Anonymizer
import ProvisioningValidator.DigitMasks
import ProvisioningValidator.IdentityMembers
import ProvisioningValidator.MaskedMembers
import ProvisioningValidator.FirstPass
import ProvisioningValidator.IdentityLogs
import ProvisioningValidator.ReadBack
import ProvisioningValidator.SliceRoundTrip
import ProvisioningValidator.StaticRoundTrip
import ProvisioningValidator.AnswerRoundTrip
import ProvisioningValidator.Lib.Monitor
import ProvisioningValidator.LockQueue
import ProvisioningValidator.NoIdentityLeft
import ProvisioningValidator.SliceHistory
import ProvisioningValidator.Tracing
import ProvisioningValidator.SliceCompleteness
import ProvisioningValidator.Completeness
import ProvisioningValidator.RelevantResources
import ProvisioningValidator.Resubmission
import ProvisioningValidator.Statuses
import ProvisioningValidator.ReaderErrors
import ProvisioningValidator.ErrorPaths
import ProvisioningValidator.AnswerNames
import ProvisioningValidator.Refusals
import ProvisioningValidator.PathAgreement
import ProvisioningValidator.InertData
import ProvisioningValidator.Rearrangements
