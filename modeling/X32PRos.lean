import X32PRos.Memory.FrameOwnership
import X32PRos.Memory.Idempotence
import X32PRos.Memory.BitmapBlock
import X32PRos.Memory.HeapGrowth
import X32PRos.Memory.BootMapped
import X32PRos.Memory.MainBoot
import X32PRos.Memory.BootRefines
import X32PRos.Memory.TablePlacement
import X32PRos.Memory.LookupStates
import X32PRos.Heap.SkipInvariant
import X32PRos.Heap.SmallBins
import X32PRos.Heap.Resize
import X32PRos.Heap.Assertions
import X32PRos.Heap.Demand
import X32PRos.Heap.Paged
import X32PRos.Video.Terminal
import X32PRos.Keyboard.Modifiers
import X32PRos.Console.FormatReads
import X32PRos.Console.BufferStores
import X32PRos.Console.Printing
import X32PRos.Console.Calls
import X32PRos.Console.Literals
import X32PRos.Console.Panic
import X32PRos.Console.Dump
import X32PRos.Vfs.Handlers
import X32PRos.Vfs.Initrd
import X32PRos.Interrupts.System
import X32PRos.Interrupts.Exceptions
