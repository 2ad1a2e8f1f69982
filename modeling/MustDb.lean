import MustDb.Lib.TwoSlot
import MustDb.Lib.Run
import MustDb.Proofs.Storage.PageStore
import MustDb.Proofs.Storage.FreeListLoss
import MustDb.Proofs.Storage.CopyOnWrite
import MustDb.Proofs.Storage.FlushStream
import MustDb.Proofs.Storage.TableStream
import MustDb.Proofs.Storage.BlockRange
import MustDb.Proofs.Storage.OpenChecks
import MustDb.Proofs.Storage.ReadBounds
import MustDb.Proofs.Storage.ColumnBlocks
import MustDb.Proofs.Storage.RowTiling
import MustDb.Proofs.Storage.BufferGeometry
import MustDb.Proofs.Storage.BufferPool
import MustDb.Proofs.Libv.QueueBounds
import MustDb.Proofs.Libv.PacketSlots
import MustDb.Proofs.Libv.StartFailure
import MustDb.Proofs.Libv.HmapRefinement
import MustDb.Proofs.Libv.HmapGrowth
import MustDb.Proofs.Libv.SliceCapacity
import MustDb.Proofs.Libv.Mixer
import MustDb.Proofs.Catalog.Refinement
import MustDb.Proofs.Catalog.Teardown
import MustDb.Proofs.Catalog.CatalogTeardown
import MustDb.Proofs.Catalog.Visibility
import MustDb.Proofs.Catalog.DropReports
import MustDb.Proofs.Utils.Alloc
import MustDb.Proofs.Utils.AllocStats
import MustDb.Proofs.Utils.FaultThreads
import MustDb.Proofs.Utils.Operator
import MustDb.Libv.EchoClient
import MustDb.Proofs.Libv.Echo
import MustDb.Proofs.Libv.EchoSystem
import MustDb.Proofs.Libv.Conn
import MustDb.Proofs.Libv.Shutdown
import MustDb.Proofs.Libv.Ownership
import MustDb.Lib.Forest
import MustDb.Proofs.Storage.TableFormat
