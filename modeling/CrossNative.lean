import CrossNative.Basis.ByteMemory
import CrossNative.Basis.FaultState
import CrossNative.Basis.BinaryFloat
import CrossNative.Basis.FloatRounding
import CrossNative.Basis.Transition
import CrossNative.Basis.History
import CrossNative.Basis.Logging
import CrossNative.Basis.Base64
import CrossNative.Registry
import CrossNative.LinkedLibrary
import CrossNative.Sandbox
import CrossNative.Balance
import CrossNative.Delivery
import CrossNative.RawBuffers
import CrossNative.OversizeGuard
import CrossNative.Manifest
import CrossNative.Rust.Metadata
import CrossNative.Rust.Results
import CrossNative.Rust.Acceptance
import CrossNative.Rust.Agreement
import CrossNative.Loading
import CrossNative.Lifetime
import CrossNative.ThreadPool
import CrossNative.Promises
import CrossNative.Host
import CrossNative.Bridge.Stdout
import CrossNative.Bridge.Framing
import CrossNative.Bridge.Ownership
import CrossNative.Bridge.Callables
import CrossNative.Bridge.Requests
import CrossNative.Bridge.Plugins
import CrossNative.Bridge.Guard
import CrossNative.Languages
import CrossNative.LanguageTable
import CrossNative.ModuleBytes
import CrossNative.Rust.Expansion
import CrossNative.Bridge.Embedding
import CrossNative.Builds
import CrossNative.Linked.Signatures
import CrossNative.Linked.Dispatch
import CrossNative.Linked.ZigExports
import CrossNative.Linked.GoExports
import CrossNative.Linked.CExports
import CrossNative.Linked.Integers
import CrossNative.Bridge.Endings
import CrossNative.Bridge.Compose
import CrossNative.Text.HostLines
import CrossNative.Text.Wire
import CrossNative.Text.Calls
import CrossNative.Text.Metadata
