import Nearlands.Heap.Blocks
import Nearlands.Heap.DoubleFree
import Nearlands.Ldr.Paging
import Nearlands.Vmm.LowerHalf
import Nearlands.Pmm.Boot
import Nearlands.Arena.Bounds
import Nearlands.Ke.Text
import Nearlands.Ecs.Data
import Nearlands.Ecs.Identity
import Nearlands.Ecs.Wrap
import Nearlands.Ldr.Reads
import Nearlands.Ldr.File
import Nearlands.Ldr.Sections
import Nearlands.Ldr.HigherHalf
import Nearlands.Ldr.InitPaging
import Nearlands.Ldr.Handover
import Nearlands.Ldr.Graphics
import Nearlands.Ldr.WideString
import Nearlands.Pagemap.Realloc
import Nearlands.Legacy.Runs
import Nearlands.Legacy.Lock
import Nearlands.Pagemap.Boot
import Nearlands.Pagemap.Frees
import Nearlands.Ke.Lines
import Nearlands.Heap.Extents
import Nearlands.Heap.Exhaustion
import Nearlands.Pmm.Bounds
import Nearlands.Pmm.Placement
import Nearlands.Pmm.Single
import Nearlands.Pmm.SelfTest
import Nearlands.Pmm.Realloc
import Nearlands.Vmm.Rights
import Nearlands.Heap.Lists
import Nearlands.Ecs.Queue
import Nearlands.Heap.Processors
import Nearlands.Mm.System
import Nearlands.Ke.Format
import Nearlands.Mm.Clients
import Nearlands.Mm.Handover
