import Sanad.Common.Bytes
import Sanad.Common.HashTree
import Sanad.Common.HashTreeBits
import Sanad.Common.Lexer
import Sanad.Common.Json.Syntax
import Sanad.Audit.Merkle
import Sanad.Audit.Consistency
import Sanad.Common.Json.Parser
import Sanad.Common.Utf8
import Sanad.Common.Json.Strings
import Sanad.Common.Base64
import Sanad.Common.Json.Encode
import Sanad.Common.Signature
import Sanad.Sigctx
import Sanad.Audit.Witness
import Sanad.Delegation.Grant
import Sanad.Delegation.Chain
import Sanad.Common.Json.Decode
import Sanad.Mcprpc
import Sanad.Mcprpc.ToolCalls
import Sanad.Common.Stateful
import Sanad.Gateway
import Sanad.PrincipalAuth
import Sanad.Workload
import Sanad.Delegation.Stage
import Sanad.Policy.Stage
import Sanad.Revoke.Stage
import Sanad.Tooldefs
import Sanad.Sts
import Sanad.Pipeline
import Sanad.Common.Transition
import Sanad.Revoke.Cached
import Sanad.Policy.Approver
import Sanad.Policy.Hold
import Sanad.Policy.SingleWinner
import Sanad.Delegation.Capability
import Sanad.Delegation.Adversary
import Sanad.Common.Base64Url
import Sanad.Common.Json.Record
import Sanad.Pop
import Sanad.Pop.Replay
import Sanad.Common.Json.RoundTrip
import Sanad.Common.Linked
import Sanad.Delegation.History
import Sanad.Delegation.Presentation
import Sanad.Delegation.Lifetime
import Sanad.Common.Json.Any
import Sanad.Tooldefs.Canonical
import Sanad.Tooldefs.Inspect
import Sanad.Tooldefs.Coverage
import Sanad.Mcprpc.MemberNames
import Sanad.Passport
import Sanad.Mcprpc.Body
import Sanad.Verify
import Sanad.Verify.Agreement
import Sanad.Pipeline.Delegates
import Sanad.Common.Forest
import Sanad.Delegation.Exchange
import Sanad.Delegation.Exchange.Lifetime
import Sanad.Workload.Enrollment
import Sanad.Workload.Enrollment.Budget
import Sanad.Audit.Chain
import Sanad.Audit.Inclusion
import Sanad.Audit.Transparency
import Sanad.Admin
import Sanad.Admin.Console
import Sanad.Admin.Cascade
import Sanad.Tooldefs.Stream
import Sanad.Tooldefs.Quarantine
import Sanad.Tooldefs.Chunking
import Sanad.Tooldefs.EventSource
import Sanad.Pop.Retention
import Sanad.Policy.Batch
import Sanad.Workload.Replicas
import Sanad.Common.Json.Equality
import Sanad.Tooldefs.Identity
import Sanad.Delegation.Digest
import Sanad.Common.Json.Fields
import Sanad.Passport.Codec
import Sanad.Common.Json.Repeats
import Sanad.Common.Json.Stream
import Sanad.Policy.Config
import Sanad.Tooldefs.Config
import Sanad.Config
import Sanad.Common.Radix
import Sanad.Vc.DidKey
import Sanad.Audit.Machine
import Sanad.Common.TokenBucket
import Sanad.Workload.NonceTable
import Sanad.Common.Json.Plain
import Sanad.Pop.Client
import Sanad.Pop.Agreement
import Sanad.Common.Civil
import Sanad.Common.Rfc3339
import Sanad.Common.Json.Slice
import Sanad.Delegation.Transport
import Sanad.Audit.Hook
import Sanad.Gateway.Proxy
import Sanad.Gateway.Serve
import Sanad.Gateway.Mediation
import Sanad.Pipeline.Forwarded
