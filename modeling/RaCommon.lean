import RaCommon.Library.Numeral
import RaCommon.Library.BitString
import RaCommon.Runtime.Outcome
import RaCommon.Encoding.Base58
import RaCommon.Library.Transition
import RaCommon.Util.Nonce
import RaCommon.Encoding.Base64
import RaCommon.Crypto.Sha
import RaCommon.Crypto.Pbkdf2
import RaCommon.Runtime.Text
import RaCommon.Crypto.HashAlgorithm
import RaCommon.Crypto.HashUtil
import RaCommon.Library.OrderedMap
import RaCommon.Runtime.Json
import RaCommon.Identity.PublicKey
import RaCommon.Crypto.Hash
import RaCommon.Identity.Did
import RaCommon.Route.Route
import RaCommon.Route.DynamicRoutingSlip
import RaCommon.Route.Stamping
import RaCommon.Messaging.Message
import RaCommon.Envelope.Envelope
import RaCommon.Library.Ledger
import RaCommon.Envelope.Routing
import RaCommon.Library.Pool
import RaCommon.Tasks.TaskRunner
import RaCommon.Tasks.ThreadStep
import RaCommon.Tasks.Scheduling
import RaCommon.Tasks.Destruction
import RaCommon.Crypto.Multihash
import RaCommon.Content.Content
import RaCommon.Content.Body
import RaCommon.Crypto.HashCash
import RaCommon.Crypto.HashCashToken
import RaCommon.Tasks.Accounting
import RaCommon.Tasks.Stopping
import RaCommon.Tasks.LateEntry
import RaCommon.Util.VersionComparator
import RaCommon.Service.Service
import RaCommon.Encoding.Base32
import RaCommon.Util.UniqueId
import RaCommon.Library.Separated
import RaCommon.Content.MagnetLink
import RaCommon.Envelope.Payload
import RaCommon.Tasks.Deciding
import RaCommon.Config.Properties
import RaCommon.Library.FileSystem
import RaCommon.Config.AppDir
import RaCommon.Library.Delimited
import RaCommon.Envelope.MultipartReading
