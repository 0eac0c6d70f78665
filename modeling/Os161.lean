import Os161.Lib.Program
import Os161.Lib.Slots
import Os161.Lib.Runs
import Os161.Lib.Ranges
import Os161.Lib.Chains
import Os161.Lib.Monitor
import Os161.Lib.Ring
import Os161.Lib.Command
import Os161.Lib.Sections
import Os161.Lib.Returns
import Os161.Limits
import Os161.State
import Os161.Vfs.File
import Os161.Vfs.Ledger
import Os161.Vfs.Events
import Os161.Vfs.Refine
import Os161.Vfs.Counts
import Os161.Vfs.Numbers
import Os161.Vfs.Shapes
import Os161.Vfs.Returning
import Os161.Proc.Table
import Os161.Proc.Lifetime
import Os161.Proc.Roster
import Os161.Syscall.File
import Os161.Syscall.Process
import Os161.Syscall.LockBalance
import Os161.Syscall.Refine
import Os161.Syscall.Dispatch
import Os161.Main.Menu
import Os161.Main.Calls
import Os161.Main.OpenFiles
import Os161.Main.Locks
import Os161.Main.Numbers
import Os161.Main.ProcTable
import Os161.Main.Strangers
import Os161.Main.Shapes
import Os161.Main.Pointers
import Os161.Main.Forking
import Os161.Main.Inheritance
import Os161.Main.Streams
import Os161.Main.Duplicates
import Os161.Interleave.Machine
import Os161.Interleave.Steps
import Os161.Interleave.Locks
import Os161.Interleave.Records
import Os161.Interleave.Statuses
import Os161.Interleave.Delivery
import Os161.Interleave.Registry
import Os161.Interleave.Freed
import Os161.Interleave.Pids
import Os161.Interleave.Transfers
import Os161.Interleave.SeekPos
import Os161.Synch.Semaphore
import Os161.Synch.Lock
import Os161.Synch.Refine
import Os161.Synch.Exclusion
import Os161.Synch.CondVar
import Os161.Synch.Awake
import Os161.Synch.Uncontended
import Os161.Synch.Hangman
import Os161.Buffer.SharedBuffer
import Os161.Buffer.Wakeups
import Os161.List.LinkedList
import Os161.List.Shape
import Os161.List.Contents
import Os161.List.WellFormed
import Os161.List.Vud
import Os161.List.Dvz
import Os161.List.Histories
import Os161.List.Chains
import Os161.List.Ties
import Os161.Semfs.Vnops
import Os161.Semfs.Wakeups
import Os161.Semfs.Objects
import Os161.Semfs.References
import Os161.Semfs.Roles
import Os161.Semfs.Creating
import Os161.Semfs.Listing
import Os161.Semfs.Entries
import Os161.Semfs.Lifetimes
import Os161.Lib.Links
import Os161.Vm.Kmalloc
import Os161.Vm.Blocks
import Os161.Vm.Pages
import Os161.Vm.Live
import Os161.Vm.Transfers
import Os161.Vm.Calls
import Os161.Vm.Histories
import Os161.Lib.Pieces
import Os161.Lib.Places
import Os161.Thread.Switch
import Os161.Thread.Whereabouts
import Os161.Thread.Moves
import Os161.Thread.Histories
import Os161.Thread.Migration
import Os161.Lib.Calls
import Os161.Sfs.Format
import Os161.Sfs.Volume
import Os161.Sfs.Inode
import Os161.Sfs.Io
import Os161.Sfs.Vnops
import Os161.Main.Console
import Os161.Main.FileRead
import Os161.Main.FileWrite
import Os161.Main.Typed
import Os161.Main.Runprogram
import Os161.Main.Getcwd
import Os161.Main.OpenPath
import Os161.Sfs.Blocks
import Os161.Path.Devices
import Os161.Path.InPlace
import Os161.Path.Lookup
import Os161.Path.Names
import Os161.Path.References
import Os161.Lib.Tiles
import Os161.Libc.Allocation
import Os161.Libc.Histories
import Os161.Main.Positions
import Os161.Main.Seek
import Os161.Vm.Isolation
import Os161.List.Sorted
import Os161.Lib.Overlay
import Os161.Sfs.Moving
import Os161.Sfs.Mapping
import Os161.Sfs.Truncation
import Os161.Sfs.Growth
import Os161.Sfs.Chunks
import Os161.Sfs.Writing
import Os161.Sfs.Reading
import Os161.Sfs.ByteArrays
import Os161.Sfs.Refusal
import Os161.Sfs.Shrunk
import Os161.Sfs.Mount
import Os161.Sfs.Reclaiming
import Os161.Sfs.Vnodes
import Os161.Sfs.Room
import Os161.Syscall.UserSpace
import Os161.Vm.Pagerefs
import Os161.Vm.Ram
import Os161.Vm.SafeFiles
import Os161.Sfsck.Blocks
import Os161.Sfsck.Bmap
import Os161.Libc.Requests
import Os161.Kernlib.Bswap
import Os161.Kernlib.Bitmap
import Os161.Kernlib.PtrArray
import Os161.Kernlib.Uio
import Os161.Kernlib.Uiomove
import Os161.Thread.Deques
import Os161.Vfs.Biglock
import Os161.Sfsck.Freemap
import Os161.Sfsck.Duplicates
import Os161.Libc.Fields
import Os161.Main.Commands
import Os161.Lib.LongDivision
import Os161.Millicode.Qdivrem
import Os161.Millicode.Division
import Os161.Millicode.Quotients
import Os161.Lib.Keyed
import Os161.Sfs.Directory
import Os161.Sfs.Remount
