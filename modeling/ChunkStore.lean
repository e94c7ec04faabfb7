import ChunkStore.Json.Schema
import ChunkStore.Main
import ChunkStore.Proofs.ChunkPlaces
import ChunkStore.Proofs.TreeClosure
import ChunkStore.Proofs.TreeMoves
import ChunkStore.Proofs.MemoryAnswers
import ChunkStore.Proofs.MemoryRuns
import ChunkStore.Proofs.ChunkSearch
import ChunkStore.Proofs.PlaceThenFind
import ChunkStore.Proofs.PagedListing
import ChunkStore.Proofs.FolderEntries
import ChunkStore.Proofs.ShardWalk
import ChunkStore.Proofs.ChunkEnumeration
import ChunkStore.Proofs.ShardLayout
import ChunkStore.Proofs.ChunkMap
import ChunkStore.Proofs.Crew
import ChunkStore.Proofs.ConcurrentPlacement
import ChunkStore.Proofs.MistakenNodes
import ChunkStore.Proofs.WalkOrder
import ChunkStore.Proofs.ExactEnumeration
import ChunkStore.Proofs.Interference
import ChunkStore.Proofs.OpenListings
import ChunkStore.Proofs.ConcurrentWalk
import ChunkStore.Proofs.ServiceHistory
import ChunkStore.Proofs.RefusedCalls
import ChunkStore.Proofs.CreatedFolders
import ChunkStore.Proofs.StorageOperations
import ChunkStore.Proofs.Confinement
import ChunkStore.Proofs.FolderListings
import ChunkStore.Proofs.WrittenFiles
import ChunkStore.Proofs.AgreeingTrees
import ChunkStore.Proofs.ListingSnapshots
import ChunkStore.Proofs.SeparateRoots
import ChunkStore.Proofs.Transcripts
import ChunkStore.Proofs.FirstRefusal
import ChunkStore.Proofs.OperationCalls
import ChunkStore.Proofs.Accord
import ChunkStore.Proofs.ConcurrentSearch
import ChunkStore.Proofs.SearchTrails
import ChunkStore.Proofs.NodeTexts
import ChunkStore.Proofs.MovedSubtrees
import ChunkStore.Proofs.DeletedSubtrees
import ChunkStore.Proofs.NamedEntries
import ChunkStore.Proofs.ReportedChunks
import ChunkStore.Proofs.PageChains
import ChunkStore.Proofs.ScannedTexts
import ChunkStore.Proofs.WrittenNumerals
import ChunkStore.Proofs.WrittenValues
import ChunkStore.Proofs.TransferArguments
import ChunkStore.Proofs.ErrorTags
import ChunkStore.Proofs.NearestDoubles
import ChunkStore.Proofs.TransferBlocks
import ChunkStore.Proofs.PacedTransfers
import ChunkStore.Proofs.PlaceTexts
import ChunkStore.Proofs.PathLaws
import ChunkStore.Proofs.BasePaths
import ChunkStore.Proofs.EndingWalks
import ChunkStore.Proofs.HonouredCursors
import ChunkStore.Proofs.WrittenRecords
import ChunkStore.Proofs.ShardSlices
import ChunkStore.Proofs.WalkedShards
