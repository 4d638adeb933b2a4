import Pari.Backend.BackendIndex
import Pari.Backend.Conformance
import Pari.Backend.Conforming
import Pari.Backend.Contract
import Pari.Backend.LawfulIndex
import Pari.Backend.Memory
import Pari.Backend.MemoryIndex
import Pari.Backend.Observation
import Pari.Backend.Redis
import Pari.Backend.RedisCodec
import Pari.Backend.RedisHandles
import Pari.Backend.RedisIsolation
import Pari.Backend.RedisMirror
import Pari.Backend.RedisNamespace
import Pari.Backend.RedisOperations
import Pari.Backend.RedisRetention
import Pari.Backend.Rows
import Pari.Backend.Scripts
import Pari.Backend.Storage
import Pari.Build.Answers
import Pari.Build.Assemble
import Pari.Build.External
import Pari.Build.Frame
import Pari.Build.Limits
import Pari.Build.Merge
import Pari.Build.Output
import Pari.Build.Overlooked
import Pari.Build.Publish
import Pari.Build.Runs
import Pari.Build.Source
import Pari.Build.Spill
import Pari.Cli.BatchSize
import Pari.Cli.Dedup
import Pari.Cli.Index
import Pari.Cli.Publish
import Pari.Cli.Search
import Pari.Cli.Transaction
import Pari.Cli.Verify
import Pari.Core.Absorbing
import Pari.Core.Batch
import Pari.Core.MinHash
import Pari.Core.Mixing
import Pari.Core.Sketching
import Pari.Data.Ascending
import Pari.Data.BandTables
import Pari.Data.BitFlip
import Pari.Data.Bytes
import Pari.Data.Checksum
import Pari.Data.Collections
import Pari.Data.Components
import Pari.Data.FileSystem
import Pari.Data.Footprint
import Pari.Data.Forest
import Pari.Data.Grouping
import Pari.Data.Interference
import Pari.Data.Interleaving
import Pari.Data.Interning
import Pari.Data.Lexicographic
import Pari.Data.Mixing
import Pari.Data.Occupancy
import Pari.Data.Outcome
import Pari.Data.Packing
import Pari.Data.Process
import Pari.Data.Publication
import Pari.Data.Redis
import Pari.Data.Result
import Pari.Data.RunMerge
import Pari.Data.Scratch
import Pari.Data.SetTable
import Pari.Data.Staging
import Pari.Data.Stateful
import Pari.Data.Statistics
import Pari.Format.BucketStream
import Pari.Format.Buckets
import Pari.Format.Codec
import Pari.Format.Container
import Pari.Format.Decode
import Pari.Format.Flips
import Pari.Format.Frames
import Pari.Format.Layout
import Pari.Format.SegmentReads
import Pari.Format.Segments
import Pari.Index.CandidatePairs
import Pari.Index.DuplicateGroups
import Pari.Index.Grouping
import Pari.Index.Groups
import Pari.Index.LiveItems
import Pari.Index.LshIndex
import Pari.Index.Metrics
import Pari.Index.Observer
import Pari.Index.PairGroups
import Pari.Index.Planner
import Pari.Index.Ranks
import Pari.Index.Reachable
import Pari.Index.Tuning
import Pari.Index.UnionFind
import Pari.Index.UniquePairs
import Pari.Lazy.Build
import Pari.Lazy.Create
import Pari.Lazy.Index
import Pari.Lazy.Publish
import Pari.Lazy.Statistics
import Pari.Python.Dedupe
import Pari.Python.Engine
import Pari.Python.Ingestion
import Pari.Python.Leaving
import Pari.Python.Outputs
import Pari.Python.Partition
import Pari.Python.Result
import Pari.Python.Transaction
import Pari.Store.BucketMap
import Pari.Store.BucketSections
import Pari.Store.Canonical
import Pari.Store.Commit
import Pari.Store.Directory
import Pari.Store.Failures
import Pari.Store.Flips
import Pari.Store.Insertion
import Pari.Store.Limits
import Pari.Store.Opening
import Pari.Store.Overlay
import Pari.Store.PersistentIndex
import Pari.Store.Publish
import Pari.Store.RoundTrip
import Pari.Store.Runs
import Pari.Store.Snapshot
import Pari.Store.SnapshotFile
import Pari.Store.Source
import Pari.Store.Statistics
import Pari.Store.Steps
import Pari.Store.TemporaryFile
