import SimpleOs.Audit.HeapContract
import SimpleOs.Audit.MemoryMove
import SimpleOs.Audit.Comparison
import SimpleOs.Audit.PrintFormat
import SimpleOs.Audit.PackedDescriptors
import SimpleOs.Audit.KeyTables
import SimpleOs.Audit.Descriptors
import SimpleOs.Audit.LoaderSegments
import SimpleOs.Audit.BiggestChunk
import SimpleOs.Audit.BootPages
import SimpleOs.Audit.BootRanges
import SimpleOs.Audit.SelfMap
import SimpleOs.Audit.FrameOwners
import SimpleOs.Audit.UserPages
import SimpleOs.Audit.StaleTranslation
import SimpleOs.Audit.HeapGrowth
import SimpleOs.Audit.NullTable
import SimpleOs.Audit.HeapLock
import SimpleOs.Audit.ModuleStart
import SimpleOs.Audit.MutexSteps
import SimpleOs.Audit.KeyBuffer
import SimpleOs.Audit.CommandBuffer
import SimpleOs.Audit.InterruptFrame
import SimpleOs.Audit.InterruptRuns
