import Os161.Lib.Places
import Os161.Lib.Slots
import Os161.Lib.Tiling
import Os161.Lib.Transition
import Os161.Lib.Bytes
import Os161.Lib.ByteOrder
import Os161.Lib.CString
import Os161.Lib.Prog
import Os161.Lib.Chain
import Os161.Lib.Ledger
import Os161.Lib.Memory
import Os161.Lib.Acyclic
import Os161.Lib.Sparse
import Os161.Libc.Malloc
import Os161.Libc.MallocBlocks
import Os161.Libc.MallocHeap
import Os161.Libc.MallocGrow
import Os161.Libc.MallocFree
import Os161.Libc.MallocSound
import Os161.Libc.Qsort
import Os161.Synch.Lock
import Os161.Synch.LockInvariant
import Os161.Synch.Semaphore
import Os161.Syscall.Loadelf
import Os161.Synch.Hangman
import Os161.Semfs.Conservation
import Os161.Semfs.Tables
import Os161.Semfs.Unlink
import Os161.Semfs.Wakeup
import Os161.Semfs.Creat
import Os161.Semfs.Directory
import Os161.Semfs.Unmount
import Os161.Thread.Spl
import Os161.Thread.Switch
import Os161.Thread.Places
import Os161.Thread.Dispatch
import Os161.Thread.Victims
import Os161.Thread.Placement
import Os161.Thread.Migration
import Os161.Thread.MigrationConserves
import Os161.Kern.Errno
import Os161.Kern.Bitmap
import Os161.Kern.Uio
import Os161.Vm.Kmalloc
import Os161.Vm.Pageref
import Os161.Vm.Dumbvm
import Os161.Vm.Ram
import Os161.Vm.Subpage
import Os161.Vm.KmallocInvariant
import Os161.Vm.KmallocPages
import Os161.Vm.KmallocBlocks
import Os161.Vm.KmallocStep
import Os161.Vm.KmallocSound
import Os161.Vm.KmallocFrame
import Os161.Vm.Machine
import Os161.Vm.Refpage
import Os161.Vm.Regions
import Os161.Vm.Ascopy
import Os161.Vm.Copyinout
import Os161.Vfs.Biglock
import Os161.Vfs.Names
import Os161.Vfs.Getdevice
import Os161.Vfs.Held
import Os161.Vfs.Balance
import Os161.Dev.Emu
import Os161.Vfs.Refs
import Os161.Vfs.RefsHeld
import Os161.Vfs.RefsBalance
import Os161.Vfs.Bootfs
import Os161.Vfs.Vnode
import Os161.Vfs.VnodeRefs
import Os161.Vfs.VnodeLife
import Os161.Vfs.VnodeProtocol
import Os161.Sfs.Format
import Os161.Sfs.Volume
import Os161.Sfs.Fs
import Os161.Sfs.Bmap
import Os161.Sfs.Mapping
import Os161.Sfs.Inode
import Os161.Sfs.Dir
import Os161.Sfs.FileIo
import Os161.Sfs.Vnops
import Os161.Sfs.Truncate
import Os161.Sfs.Shorten
import Os161.Sfs.Refs
import Os161.Sfs.Returns
import Os161.Sfs.Paths
import Os161.Sfs.Content
import Os161.Sfs.Transfer
import Os161.Sfs.Sector
import Os161.Sfs.Whole
import Os161.Sfs.Contract
import Os161.Sfs.Entries
import Os161.Sfs.Lost
import Os161.Sfs.Rename
import Os161.Sfsck.State
import Os161.Sfsck.Io
import Os161.Sfsck.Freemap
import Os161.Sfsck.Inode
import Os161.Sfsck.Pass1
import Os161.Sfsck.Pass2
import Os161.Sfsck.Main
import Os161.Sfsck.Calm
import Os161.Sfsck.Table
import Os161.Sfsck.Termination
import Os161.Mksfs
import Os161.Sfs.Freemap
import Os161.Sfsck.Clean
import Os161.Sfsck.Blocks
import Os161.Sfsck.Discard
import Os161.Sfsck.Dirio
import Os161.Sfsck.Spotless
import Os161.Sfsck.Layout
import Os161.Dumpsfs
import Os161.Dumpsfs.Recurse
import Os161.Lib.Numeral
import Os161.Libc.Printf
import Os161.Libc.PrintfField
import Os161.Libc.Snprintf
import Os161.Libc.Atoi
import Os161.Bin.Tac
import Os161.Dev.Lhd
import Os161.Lib.Ring
import Os161.Dev.Console
import Os161.Libc.Execvp
import Os161.Libc.Strtok
import Os161.Bin.Sh
import Os161.Libc.MallocAny
import Os161.Kern.Uiomove
import Os161.Kern.BitmapSet
import Os161.Lib.Linked
import Os161.Thread.Threadlist
import Os161.Libc.Memmove
import Os161.Kern.Arrays
import Os161.Kern.ArrayList
import Os161.Libc.Tokens
import Os161.Kern.Bswap
import Os161.Millicode.Muldi3
import Os161.Millicode.Divdi3
import Os161.Sfs.Directories
import Os161.Thread.Ipi
import Os161.Libc.Random
import Os161.Libc.RandomCalls
