import BrainSdk.Library.Machine
import BrainSdk.Library.Tables
import BrainSdk.Library.Trace
import BrainSdk.Python.Effects
import BrainSdk.Theorems.Chunking
import BrainSdk.Python.Invariant
import BrainSdk.Theorems.RouteOwnership
import BrainSdk.Python.Consumed
import BrainSdk.Theorems.Demultiplexing
import BrainSdk.Theorems.NoStrandedWaiter
import BrainSdk.Theorems.EndOfStream
import BrainSdk.Rust.Mux
import BrainSdk.Rust.Effects
import BrainSdk.Rust.Invariant
import BrainSdk.Theorems.ReaderEnd
import BrainSdk.Rust.Writer
import BrainSdk.Theorems.WholeFrames
import BrainSdk.TypeScript.Frame
import BrainSdk.TypeScript.Mux
import BrainSdk.TypeScript.Invariant
import BrainSdk.Theorems.StreamIdFreshness
import BrainSdk.Theorems.Retryability
import BrainSdk.Rust.Link
import BrainSdk.Theorems.Deadlock
import BrainSdk.TypeScript.FrameLemmas
import BrainSdk.Theorems.FrameCodec
import BrainSdk.TypeScript.Pump
import BrainSdk.Theorems.Pump
import BrainSdk.Cbor.Scan
import BrainSdk.Cbor.Grammar
import BrainSdk.Cbor.ScanLemmas
import BrainSdk.Theorems.CborScan
import BrainSdk.Cbor.Float
import BrainSdk.Cbor.FloatLemmas
import BrainSdk.Cbor.Double
import BrainSdk.Theorems.FloatWidth
import BrainSdk.Cbor.Encode
import BrainSdk.Cbor.Statement
import BrainSdk.Cbor.EncodeLemmas
import BrainSdk.Theorems.StatementBytes
import BrainSdk.Http.Errors
import BrainSdk.Http.Retry
import BrainSdk.Library.Retry
import BrainSdk.Http.Client
import BrainSdk.Theorems.NoResend
import BrainSdk.Http.Calls
import BrainSdk.Theorems.IdempotencyKey
import BrainSdk.Library.UrlPath
import BrainSdk.Http.Path
import BrainSdk.Theorems.PathIds
import BrainSdk.Http.Sse
import BrainSdk.Http.SseLemmas
import BrainSdk.Theorems.SseParsers
import BrainSdk.Rust.Retry
import BrainSdk.Theorems.RetryRun
import BrainSdk.Library.SingleFlight
import BrainSdk.Pool.Locked
import BrainSdk.Pool.LockedLemmas
import BrainSdk.Theorems.PoolReconnect
import BrainSdk.Pool.Shared
import BrainSdk.Pool.SharedLemmas
import BrainSdk.Theorems.PoolClose
import BrainSdk.Pool.Opening
import BrainSdk.Theorems.PoolOpening
import BrainSdk.Library.Simulation
import BrainSdk.Python.Handshake
import BrainSdk.Python.HandshakeInvariant
import BrainSdk.Theorems.HandshakeSafety
import BrainSdk.Rust.Handshake
import BrainSdk.Python.HandshakeDelivery
import BrainSdk.Theorems.HandshakeAgreement
import BrainSdk.Python.Connect
import BrainSdk.Theorems.ReaderRelease
import BrainSdk.Python.AioConnect
import BrainSdk.TypeScript.Handshake
import BrainSdk.Theorems.FailedConnect
import BrainSdk.Library.Crc
import BrainSdk.Theorems.ShortestFloat
import BrainSdk.Wire.CrcLemmas
import BrainSdk.Python.Retry
import BrainSdk.Theorems.Corruption
import BrainSdk.Theorems.RetryOverflow
import BrainSdk.Cbor.WellFormed
import BrainSdk.Theorems.ScanComplete
import BrainSdk.Cbor.Checked
import BrainSdk.Theorems.ScanSafe
import BrainSdk.Cbor.Decode
import BrainSdk.Cbor.Writer
import BrainSdk.Cbor.WriterLemmas
import BrainSdk.Theorems.EncoderRoundTrip
import BrainSdk.Python.Objects
import BrainSdk.Python.Payloads
import BrainSdk.Python.Codec
import BrainSdk.Theorems.PayloadErrors
import BrainSdk.Python.Cbor2
import BrainSdk.Python.PlainClasses
import BrainSdk.Theorems.EventRoundTrip
import BrainSdk.Python.PlainCodec
import BrainSdk.Theorems.VectorRoundTrip
import BrainSdk.Library.Json
import BrainSdk.Library.JsonLemmas
import BrainSdk.TypeScript.Json
import BrainSdk.TypeScript.JsonLemmas
import BrainSdk.Theorems.JsonParse
import BrainSdk.TypeScript.JsonBody
import BrainSdk.Theorems.Castagnoli
import BrainSdk.Theorems.RustBackoff
import BrainSdk.Theorems.RouteLeak
import BrainSdk.Theorems.MalformedFrame
import BrainSdk.Theorems.SinkFifo
import BrainSdk.Theorems.IdlePeriod
import BrainSdk.Http.Feed
import BrainSdk.Http.FeedLemmas
import BrainSdk.Theorems.ChunkFree
import BrainSdk.Theorems.FeedDelay
import BrainSdk.Theorems.ResumePosition
import BrainSdk.Http.Delays
import BrainSdk.Theorems.RequestLaw
import BrainSdk.Library.JsonSound
import BrainSdk.TypeScript.LooseJson
import BrainSdk.Theorems.JsonAcceptance
import BrainSdk.Theorems.JsonRoundTrip
import BrainSdk.Theorems.AsyncRoutes
import BrainSdk.Theorems.AsyncStreams
import BrainSdk.Rust.Frame
import BrainSdk.Theorems.RustFrames
import BrainSdk.Rust.Ownership
import BrainSdk.Theorems.RustStreams
import BrainSdk.TypeScript.Ownership
import BrainSdk.Theorems.ScriptStreams
import BrainSdk.Library.Aligned
import BrainSdk.Cbor.Requests
import BrainSdk.Python.Requests
import BrainSdk.TypeScript.Requests
import BrainSdk.Theorems.RequestBytes
