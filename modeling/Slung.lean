import Slung.Lib.Bytes
import Slung.Lib.LwwMap
import Slung.Lib.Framing
import Slung.Lib.Machine
import Slung.Lib.UndoLog
import Slung.Lib.Bloom
import Slung.Memory.Lww
import Slung.Queue
import Slung.Wasm.Index
import Slung.Wasm.Module
import Slung.Engine.Context
import Slung.Wasm.HostAbi.Generic
import Slung.Engine.Loop
import Slung.Engine.Cascade
import Slung.Types
import Slung.Primitives.Hlc
import Slung.Lib.Object
import Slung.ModuleStore
import Slung.Wal.State
import Slung.Wal.Codec
import Slung.Wal.Recovery
import Slung.Wal.Publish
import Slung.Wal.Machine
import Slung.Wal.Simulation
import Slung.Wal.Refinement
import Slung.Wal.PublicationOrder
import Slung.Wal.PendingOrder
import Slung.Wal.Shutdown
import Slung.Wal.StrictFaults
import Slung.Wal.Ledger
import Slung.Wal.CrashRuns
import Slung.Engine.AllOrNothing
import Slung.Engine.Provenance
import Slung.Wasm.HostAbi.ReadBack
import Slung.Lib.Causality
import Slung.Primitives.ExactHlc
import Slung.Lib.Latest
import Slung.Wal.Namespaces
import Slung.Wal.Admission
import Slung.Lib.Retry
import Slung.Wal.Retries
import Slung.Lib.Checked
import Slung.Wal.Bounds
import Slung.Lib.RunningHash
import Slung.Wal.Damage
import Slung.Wal.RequestLifetimes
import Slung.Lib.RingBuffer
import Slung.Primitives.Arc
import Slung.QueueInner
import Slung.QueueOwner
import Slung.Lib.Mailbox
import Slung.Engine.Ingress
import Slung.Lib.Claims
import Slung.Engine.Workers
import Slung.Engine.AtomicSet
import Slung.Lib.LinearMemory
import Slung.Sdks.Mapper
import Slung.Engine.Ingestion
import Slung.Engine.Session
import Slung.Engine.Steps
import Slung.Engine.Coherence
import Slung.Engine.Restart
import Slung.Lib.Join
import Slung.Memory.Merge
import Slung.Engine.Connectors
import Slung.Bin.Deployment
import Slung.Bin.Supervisor
import Slung.Sdks.Rust
import Slung.Lib.Delimited
import Slung.Wasm.HostAbi.Http
import Slung.Sdks.Http
import Slung.Bin.Envelope
import Slung.Bin.Namespaces
import Slung.Wal.Convergence
import Slung.Primitives.Bloom
import Slung.Memory.Reference
import Slung.Wasm.Inverse
import Slung.Engine.Firing
import Slung.Wal.AckBatch
import Slung.Lib.Stopping
import Slung.Engine.Polling
import Slung.Engine.Setup
import Slung.Engine.Lifecycle
import Slung.Bin.Redeployment
import Slung.Bin.Handover
import Slung.Bin.Stops
import Slung.Primitives.HlcCalls
import Slung.Lib.Cleanup
import Slung.Wal.DecodeCleanup
import Slung.Lib.ByteBits
import Slung.Primitives.Bitmap
import Slung.Memory.ColumnTable
import Slung.Lib.Threads
import Slung.Memory.SkipList
import Slung.Memory.SkipListRow
import Slung.Memory.SkipListMap
import Slung.Lib.Heap
import Slung.Sdks.Allocation
import Slung.Sdks.Store
import Slung.Sdks.Requests
import Slung.Wal.Reads
import Slung.Lib.Owning
