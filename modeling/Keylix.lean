import Keylix.Core.Jwk
import Keylix.Core.Thumbprint
import Keylix.Dpop.Agreement
import Keylix.Dpop.Canonical
import Keylix.Dpop.Concurrent
import Keylix.Dpop.Consultation
import Keylix.Dpop.DotSegments
import Keylix.Dpop.DuplicateMembers
import Keylix.Dpop.Equivalence
import Keylix.Dpop.Normalization
import Keylix.Dpop.Ports
import Keylix.Dpop.Proof
import Keylix.Dpop.ProofText
import Keylix.Dpop.ReplayIdentity
import Keylix.Dpop.ReplayMemory
import Keylix.Dpop.Request
import Keylix.Dpop.RoundTrip
import Keylix.Dpop.Size
import Keylix.Dpop.State
import Keylix.Dpop.Target
import Keylix.Dpop.Verification
import Keylix.Http.Forwarded
import Keylix.Http.Target
import Keylix.Lib.Base64
import Keylix.Lib.Bytes
import Keylix.Lib.Critical
import Keylix.Lib.FileOps
import Keylix.Lib.FileSystem
import Keylix.Lib.FiniteMap
import Keylix.Lib.Ipv6
import Keylix.Lib.Json
import Keylix.Lib.JsonParser
import Keylix.Lib.JsonValue
import Keylix.Lib.Program
import Keylix.Lib.SelfDelimiting
import Keylix.Lib.Uri
import Keylix.Mcp.Client
import Keylix.Mcp.ClientRuns
import Keylix.Mcp.Server
import Keylix.Mcp.Transport
import Keylix.OAuth.Binding
import Keylix.OAuth.Client
import Keylix.Verifier.Application
import Keylix.Verifier.Connection
import Keylix.Verifier.Envelope
import Keylix.Verifier.Framing
import Keylix.Verifier.Host
import Keylix.Verifier.Ipc
import Keylix.Verifier.IpcSession
import Keylix.Verifier.Mac
import Keylix.Verifier.Nonce
import Keylix.Verifier.NonceRuns
import Keylix.Verifier.RemoteCall
import Keylix.Verifier.Replay
import Keylix.Verifier.Replay.Concurrent
import Keylix.Verifier.Replay.Faults
import Keylix.Verifier.Replay.Linearizable
import Keylix.Verifier.Replay.Marker
import Keylix.Verifier.Replay.Opening
import Keylix.Verifier.Replay.Recovery
import Keylix.Verifier.Replay.Refinement
import Keylix.Verifier.Replay.Safety
import Keylix.Verifier.ReplayRuns
import Keylix.Verifier.SecureFs
import Keylix.Verifier.SenderConstraint
import Keylix.Verifier.Serve
import Keylix.Verifier.Startup
