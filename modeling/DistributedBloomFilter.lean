import DistributedBloomFilter.Basic
import DistributedBloomFilter.Lib.BigEndian
import DistributedBloomFilter.Lib.Run
import DistributedBloomFilter.Lib.Program
import DistributedBloomFilter.Lib.Handover
import DistributedBloomFilter.Lib.Slices
import DistributedBloomFilter.Lib.Load
import DistributedBloomFilter.Lib.Murmur3
import DistributedBloomFilter.Lib.Progression
import DistributedBloomFilter.Lib.Gzip
import DistributedBloomFilter.Lib.Contents
import DistributedBloomFilter.Lib.Crc32
import DistributedBloomFilter.Lib.FileSystem
import DistributedBloomFilter.Lib.Json
import DistributedBloomFilter.Lib.JsonText
import DistributedBloomFilter.Lib.JsonDecode
import DistributedBloomFilter.Lib.Utf8
import DistributedBloomFilter.Lib.JsonParse
import DistributedBloomFilter.Lib.JsonQuote
import DistributedBloomFilter.Lib.JsonEncode
import DistributedBloomFilter.Lib.JsonStream
import DistributedBloomFilter.Lib.Keyed
import DistributedBloomFilter.Lib.AesGcm
import DistributedBloomFilter.Lib.ExchangeSort
import DistributedBloomFilter.Lib.Decimal
import DistributedBloomFilter.Lib.DecimalOrder
import DistributedBloomFilter.Lib.CivilTime
import DistributedBloomFilter.Lib.Rfc3339
import DistributedBloomFilter.Lib.Base64
import DistributedBloomFilter.Lib.JsonCodec
import DistributedBloomFilter.Lib.Brackets
import DistributedBloomFilter.Lib.Sha256
import DistributedBloomFilter.Lib.Retry
import DistributedBloomFilter.Lib.TokenBucket
import DistributedBloomFilter.Lib.Recency
import DistributedBloomFilter.Bloom.Hash
import DistributedBloomFilter.Bloom.Distinct
import DistributedBloomFilter.Bloom.IndexPool
import DistributedBloomFilter.Bloom.Counting
import DistributedBloomFilter.Bloom.Outstanding
import DistributedBloomFilter.Bloom.BatchAdd
import DistributedBloomFilter.Bloom.AddEach
import DistributedBloomFilter.Bloom.Exact
import DistributedBloomFilter.Bloom.Serialize
import DistributedBloomFilter.Bloom.Checked
import DistributedBloomFilter.Bloom.Compression
import DistributedBloomFilter.Bloom.Cache
import DistributedBloomFilter.Bloom.Lru
import DistributedBloomFilter.Bloom.Loading
import DistributedBloomFilter.Raft.Fsm
import DistributedBloomFilter.Raft.Snapshot
import DistributedBloomFilter.Raft.Restore
import DistributedBloomFilter.Raft.Node
import DistributedBloomFilter.Raft.Acknowledged
import DistributedBloomFilter.Wal.Encryptor
import DistributedBloomFilter.Wal.Files
import DistributedBloomFilter.Raft.SnapshotManager
import DistributedBloomFilter.Raft.SnapshotHistory
import DistributedBloomFilter.Wal.Writer
import DistributedBloomFilter.Wal.Reader
import DistributedBloomFilter.Wal.FailedRoll
import DistributedBloomFilter.Wal.Numbering
import DistributedBloomFilter.Wal.History
import DistributedBloomFilter.Wal.Listing
import DistributedBloomFilter.Wal.ShortWrite
import DistributedBloomFilter.Wal.SizeLimit
import DistributedBloomFilter.Wal.Corruption
import DistributedBloomFilter.Wal.Async
import DistributedBloomFilter.Wal.AsyncFlush
import DistributedBloomFilter.Wal.Sync
import DistributedBloomFilter.Wal.BatchOrder
import DistributedBloomFilter.Wal.Framing
import DistributedBloomFilter.Raft.Malformed
import DistributedBloomFilter.Metadata.Service
import DistributedBloomFilter.Metadata.Replace
import DistributedBloomFilter.Metadata.Load
import DistributedBloomFilter.Raft.Logged
import DistributedBloomFilter.Raft.Retention
import DistributedBloomFilter.Raft.Entries
import DistributedBloomFilter.Raft.Replication
import DistributedBloomFilter.Raft.Formats
import DistributedBloomFilter.Raft.SnapshotFiles
import DistributedBloomFilter.Auth.Interceptor
import DistributedBloomFilter.Auth.Replay
import DistributedBloomFilter.Auth.Cleanup
import DistributedBloomFilter.Auth.Forged
import DistributedBloomFilter.Auth.Gate
import DistributedBloomFilter.Auth.Signing
import DistributedBloomFilter.Grpc.Server
import DistributedBloomFilter.Grpc.Service
import DistributedBloomFilter.Grpc.Programs
import DistributedBloomFilter.Grpc.RateLimit
import DistributedBloomFilter.Grpc.ClientLimit
import DistributedBloomFilter.Grpc.ClientExcess
import DistributedBloomFilter.Grpc.TokenBucketLimiter
import DistributedBloomFilter.Audit.Logger
import DistributedBloomFilter.Audit.Lines
import DistributedBloomFilter.Audit.Listing
import DistributedBloomFilter.Audit.Pipeline
import DistributedBloomFilter.Audit.Retention
import DistributedBloomFilter.Sdk.Client
import DistributedBloomFilter.Sdk.Redirect
import DistributedBloomFilter.Sdk.Delivery
import DistributedBloomFilter.Sdk.Batch
import DistributedBloomFilter.Metadata.Format
import DistributedBloomFilter.Wal.Secret
import DistributedBloomFilter.Gateway.Handlers
import DistributedBloomFilter.Gateway.Site
