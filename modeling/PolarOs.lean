import PolarOs.Library.Alternating
import PolarOs.Library.Checked
import PolarOs.Library.Signed
import PolarOs.Library.LittleEndian
import PolarOs.Library.Utf8
import PolarOs.Library.Utf8Order
import PolarOs.Library.SortedMap
import PolarOs.Library.Reader
import PolarOs.Library.ReaderImage
import PolarOs.Library.Memory
import PolarOs.Library.PathMap
import PolarOs.Library.Transition
import PolarOs.Library.Cyclic
import PolarOs.Library.Streams
import PolarOs.Library.Ascending
import PolarOs.Library.Stacking
import PolarOs.Library.RingBuffer
import PolarOs.Library.Paging
import PolarOs.Library.Recent
import PolarOs.Library.LineWalk
import PolarOs.Library.Loops
import PolarOs.Library.Hex
import PolarOs.Library.Chunks
import PolarOs.Library.InsertionSort
import PolarOs.Library.Wrapped
import PolarOs.Text
import PolarOs.Drivers.Ata
import PolarOs.Drivers.AtaPorts
import PolarOs.Drivers.AtaStore
import PolarOs.Gui.Widget
import PolarOs.Drivers.InputBuffers
import PolarOs.Drivers.Keyboard
import PolarOs.Drivers.Mouse
import PolarOs.Drivers.MouseStream
import PolarOs.Drivers.Vga
import PolarOs.Drivers.TextScreen
import PolarOs.Fs.RamFs
import PolarOs.Fs.Refinement
import PolarOs.Fs.Codec
import PolarOs.Fs.CodecLaws
import PolarOs.Fs.Records
import PolarOs.Fs.Truncation
import PolarOs.Fs.Fat
import PolarOs.Fs.FatReads
import PolarOs.Fs.FatVolume
import PolarOs.Fs.FatFaults
import PolarOs.Fs.FatContents
import PolarOs.Kernel.Scheduler
import PolarOs.Kernel.SchedulerSteps
import PolarOs.Kernel.SchedulerInvariant
import PolarOs.Kernel.SchedulerRuns
import PolarOs.Kernel.Cleanup
import PolarOs.Kernel.Fairness
import PolarOs.Kernel.Syscall
import PolarOs.Kernel.Descriptors
import PolarOs.Kernel.Isolation
import PolarOs.Kernel.Ownership
import PolarOs.Kernel.FrameAllocator
import PolarOs.Kernel.Elf
import PolarOs.Kernel.ElfSafety
import PolarOs.Kernel.ElfImage
import PolarOs.Kernel.ElfStores
import PolarOs.Kernel.ElfAccess
import PolarOs.Kernel.Context
import PolarOs.Kernel.Switching
import PolarOs.Shell.Commands
import PolarOs.Shell.Storage
import PolarOs.Shell.Interrupted
import PolarOs.Shell.SharedDisk
import PolarOs.Shell.Loading
import PolarOs.Shell.Environment
import PolarOs.Shell.Substitution
import PolarOs.Shell.Dispatch
import PolarOs.Shell.Line
import PolarOs.Shell.RedirectionGrammar
import PolarOs.Shell.Filters
import PolarOs.Shell.HexDump
import PolarOs.Shell.Transfers
import PolarOs.Shell.Session
import PolarOs.Shell.Addressing
import PolarOs.Shell.Paths
import PolarOs.Shell.History
import PolarOs.Gui.EventLoop
import PolarOs.Gui.Terminal
import PolarOs.Gui.Redirections
import PolarOs.Gui.Expansion
import PolarOs.Gui.SharedTree
import PolarOs.Gui.Window
import PolarOs.Gui.Compositor
import PolarOs.Gui.CompositorRuns
import PolarOs.Gui.Dragging
import PolarOs.Gui.Wrapping
import PolarOs.Shell.LineEditor
import PolarOs.Shell.Echo
import PolarOs.Library.CommonPrefix
import PolarOs.Shell.Completion
import PolarOs.Shell.ReadKey
import PolarOs.Gui.Spawning
import PolarOs.Gui.Framebuffer
import PolarOs.Gui.Drawing
import PolarOs.Gui.TerminalDrawing
import PolarOs.Gui.Lines
import PolarOs.Gui.Ticks
import PolarOs.Gui.Wallpaper
import PolarOs.Gui.PolygonFill
import PolarOs.Library.Scanning
import PolarOs.Gui.PathParser
import PolarOs.Shell.Loop
import PolarOs.Gui.FrontEnds
import PolarOs.Kernel.TimerFrame
import PolarOs.Kernel.Preemption
import PolarOs.Library.Picture
import PolarOs.Gui.Painting
import PolarOs.Gui.Frames
import PolarOs.Gui.Placement
import PolarOs.Gui.Visible
import PolarOs.Gui.MainLoop
import PolarOs.Library.SpinLocks
import PolarOs.Kernel.Locks
import PolarOs.Kernel.Boot
import PolarOs.Gui.Sessions
import PolarOs.Kernel.Timer
