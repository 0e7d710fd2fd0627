import ShuffleService.App
import ShuffleService.AppRegistry
import ShuffleService.Ascending
import ShuffleService.BlockId
import ShuffleService.BlockIdTracker
import ShuffleService.BlockReader
import ShuffleService.ChunkSource
import ShuffleService.Clock
import ShuffleService.Cluster
import ShuffleService.CommandLine
import ShuffleService.Config.Coordinator
import ShuffleService.Config.Log
import ShuffleService.Config.Option
import ShuffleService.Config.Server
import ShuffleService.Config.Source
import ShuffleService.Coordinator
import ShuffleService.CoordinatorClient
import ShuffleService.Crc32
import ShuffleService.Error
import ShuffleService.ExcludeList
import ShuffleService.FileEntry
import ShuffleService.FileTree
import ShuffleService.IdBitmap
import ShuffleService.IdBitmap.Bucket
import ShuffleService.IdBitmap.Container
import ShuffleService.IdBitmap.Stored
import ShuffleService.IdSet
import ShuffleService.IndexRecord
import ShuffleService.Json.Decode
import ShuffleService.Json.Form
import ShuffleService.Json.Printer
import ShuffleService.Json.Reader
import ShuffleService.Json.Value
import ShuffleService.Launch
import ShuffleService.LocalFiles
import ShuffleService.Main
import ShuffleService.NameSet
import ShuffleService.PartitionRange
import ShuffleService.PartitionShards
import ShuffleService.Placement
import ShuffleService.Proofs.AnyIndex
import ShuffleService.Proofs.AppRequests
import ShuffleService.Proofs.BackgroundScans
import ShuffleService.Proofs.BlockIdFields
import ShuffleService.Proofs.ChecksumBits
import ShuffleService.Proofs.ChunkGrouping
import ShuffleService.Proofs.ChunkSizes
import ShuffleService.Proofs.ClientPlacement
import ShuffleService.Proofs.CompletenessCheck
import ShuffleService.Proofs.ContainerBytes
import ShuffleService.Proofs.CoordinatorAccounts
import ShuffleService.Proofs.CutFiles
import ShuffleService.Proofs.DamagedBlocks
import ShuffleService.Proofs.Delivery
import ShuffleService.Proofs.DirectRead
import ShuffleService.Proofs.ExcludeFile
import ShuffleService.Proofs.ExcludeGrammar
import ShuffleService.Proofs.FailingSources
import ShuffleService.Proofs.LoadedTable
import ShuffleService.Proofs.Membership
import ShuffleService.Proofs.PlacementLaw
import ShuffleService.Proofs.RangeTiling
import ShuffleService.Proofs.ReaderReference
import ShuffleService.Proofs.ReaderRun
import ShuffleService.Proofs.RecordBytes
import ShuffleService.Proofs.RegistryHistory
import ShuffleService.Proofs.SameServers
import ShuffleService.Proofs.ServerAccounts
import ShuffleService.Proofs.ShardContents
import ShuffleService.Proofs.ShardPlacement
import ShuffleService.Proofs.SilentApps
import ShuffleService.Proofs.StoredTable
import ShuffleService.Proofs.TagIndex
import ShuffleService.Proofs.TextBytes
import ShuffleService.Proofs.TrackedIds
import ShuffleService.Proofs.TreeChanges
import ShuffleService.Proofs.UploadedFiles
import ShuffleService.Proofs.WaitingPurges
import ShuffleService.Proofs.WordArithmetic
import ShuffleService.Proofs.WordLayouts
import ShuffleService.Proofs.WrittenFiles
import ShuffleService.Schedule
import ShuffleService.ServerNode
import ShuffleService.ShuffleServer
import ShuffleService.StatusCode
import ShuffleService.Table
import ShuffleService.Text.Blank
import ShuffleService.Text.Digits
import ShuffleService.Text.Hex
import ShuffleService.Text.Quoted
import ShuffleService.Text.Utf8
import ShuffleService.Text.Visible
import ShuffleService.Toml.Decode
import ShuffleService.Toml.Document
import ShuffleService.Toml.Scalar
import ShuffleService.Toml.Value
import ShuffleService.Upload
import ShuffleService.Word
import ShuffleService.WordLayout
