import UfsX.Lib.Bitmap
import UfsX.Lib.Radix
import UfsX.Lib.Run
import UfsX.Lib.Runs
import UfsX.Lib.RwLock
import UfsX.Lib.Threads
import UfsX.Lib.Ledger
import UfsX.Lib.Cache
import UfsX.Lib.Calls
import UfsX.Lib.Mem
import UfsX.Lib.First
import UfsX.Lib.OpenAddr
import UfsX.Lib.ParentTree
import UfsX.Compat.Suspend
import UfsX.Compat.TaskQueue
import UfsX.Compat.Param
import UfsX.Compat.Secondary
import UfsX.Ffs.Tables
import UfsX.Ffs.Fs
import UfsX.Ffs.Subr
import UfsX.Ffs.Alloc
import UfsX.Ffs.Balloc
import UfsX.Ffs.Buffers
import UfsX.Ffs.Truncate
import UfsX.Ffs.Inoalloc
import UfsX.Ffs.Hashalloc
import UfsX.Ffs.Cgroup
import UfsX.Ffs.Handle
import UfsX.Ffs.Extattr
import UfsX.Ffs.ExtattrLock
import UfsX.Ffs.ExtattrWalk
import UfsX.Ffs.Write
import UfsX.Ffs.WriteUndo
import UfsX.Ffs.Syncvnode
import UfsX.Ffs.Vget
import UfsX.Ffs.Trim
import UfsX.Ffs.Update
import UfsX.Ufs.Inode
import UfsX.Ufs.Bmap
import UfsX.Ufs.Getlbns
import UfsX.Ufs.InodeLock
import UfsX.Ufs.NameCache
import UfsX.Ufs.RenameLocks
import UfsX.Ufs.Links
import UfsX.Ufs.Setid
import UfsX.Ufs.Setattr
import UfsX.Ufs.Sleep
import UfsX.Ufs.Dir
import UfsX.Ufs.Dirempty
import UfsX.Ufs.Dirhash
import UfsX.Ufs.DirhashMem
import UfsX.Ufs.Lookup
import UfsX.Ufs.LookupRdonly
import UfsX.Ufs.DirThreads
import UfsX.Proofs.Blocks
import UfsX.Proofs.Fragacct
import UfsX.Proofs.Clusteracct
import UfsX.Proofs.Mapsearch
import UfsX.Proofs.Consistent
import UfsX.Proofs.GroupOps
import UfsX.Proofs.AllocSpec
import UfsX.Proofs.AllocRun
import UfsX.Proofs.Blkpref
import UfsX.Proofs.Bmap
import UfsX.Proofs.Getlbns
import UfsX.Proofs.Extend
import UfsX.Proofs.Quota
import UfsX.Proofs.AllocQuota
import UfsX.Proofs.AllocTrace
import UfsX.Proofs.BmapRuns
import UfsX.Proofs.IndirNames
import UfsX.Proofs.Balloc
import UfsX.Proofs.BallocFail
import UfsX.Proofs.Buffers
import UfsX.Proofs.Inoalloc
import UfsX.Proofs.Discipline
import UfsX.Proofs.Hashalloc
import UfsX.Proofs.HashallocComplete
import UfsX.Proofs.InodeLock
import UfsX.Proofs.Handle
import UfsX.Proofs.Extattr
import UfsX.Proofs.ExtattrLock
import UfsX.Proofs.ExtattrWalk
import UfsX.Proofs.Write
import UfsX.Proofs.WriteUndo
import UfsX.Proofs.Syncvnode
import UfsX.Proofs.Cgroup
import UfsX.Proofs.Secondary
import UfsX.Proofs.Mkfs
import UfsX.Proofs.NameCache
import UfsX.Proofs.NameCacheRun
import UfsX.Proofs.Oldfscompat
import UfsX.Proofs.RenameLocks
import UfsX.Proofs.Links
import UfsX.Proofs.Suspend
import UfsX.Proofs.TaskQueue
import UfsX.Proofs.LibufsInode
import UfsX.Proofs.VnodeRefs
import UfsX.Proofs.LibufsCgroup
import UfsX.Proofs.Setid
import UfsX.Proofs.Setattr
import UfsX.Proofs.Sleep
import UfsX.Proofs.Vget
import UfsX.Proofs.Trim
import UfsX.Proofs.TrimExtents
import UfsX.Proofs.DirRecords
import UfsX.Proofs.DirScan
import UfsX.Proofs.DirIndex
import UfsX.Proofs.DirStats
import UfsX.Proofs.HashLookup
import UfsX.Proofs.Compact
import UfsX.Proofs.Dirempty
import UfsX.Proofs.Direnter
import UfsX.Proofs.LookupIno
import UfsX.Proofs.LookupRdonly
import UfsX.Proofs.Dirremove
import UfsX.Proofs.Remove
import UfsX.Proofs.DirhashBuild
import UfsX.Proofs.DirRun
import UfsX.Proofs.DirhashExact
import UfsX.Proofs.DirhashFree
import UfsX.Proofs.DirhashMem
import UfsX.Proofs.DirhashMemRun
import UfsX.Proofs.DirThreads
import UfsX.Proofs.Update
import UfsX.Proofs.LinksRun
import UfsX.Libufs.Block
import UfsX.Libufs.Inode
import UfsX.Libufs.Address
import UfsX.Newfs.Mkfs
import UfsX.Proofs.Address
import UfsX.Ffs.Superblock
import UfsX.Ffs.Sync
import UfsX.Lib.Heap
import UfsX.Ffs.Mountfs
import UfsX.Ffs.Read
import UfsX.Ffs.Reload
import UfsX.Ffs.Mount
import UfsX.Proofs.Sync
import UfsX.Ufs.Inactive
import UfsX.Proofs.Inactive
import UfsX.Proofs.Mount
import UfsX.Proofs.CheckBlkno
import UfsX.Proofs.Superblock
import UfsX.Proofs.Mountfs
import UfsX.Proofs.Ranges
import UfsX.Proofs.Read
import UfsX.Proofs.Readdir
import UfsX.Proofs.Reload
import UfsX.Proofs.ClusterSearch
import UfsX.Ufs.Seek
import UfsX.Ufs.Quota
import UfsX.Ufs.Readdir
import UfsX.Ffs.AllocQuota
import UfsX.Proofs.Seek
import UfsX.Proofs.Remove
import UfsX.Compat.Memcchr
import UfsX.Compat.Buf
import UfsX.Lib.EraseWalk
import UfsX.Lib.Marks
import UfsX.Lib.Matched
import UfsX.Lib.Tiles
import UfsX.Ffs.IallocCritical
import UfsX.Ffs.Bread
import UfsX.Ffs.Fsck
import UfsX.Ffs.Sbget
import UfsX.Ufs.TidString
import UfsX.Ufs.LockPair
import UfsX.Ufs.Makedirentry
import UfsX.Proofs.Memcchr
import UfsX.Proofs.TidString
import UfsX.Proofs.IallocCritical
import UfsX.Proofs.Buf
import UfsX.Proofs.Bread
import UfsX.Proofs.LockPair
import UfsX.Proofs.Makedirentry
import UfsX.Proofs.Fsck
import UfsX.Proofs.Sbget
import UfsX.Proofs.SbgetSearch
import UfsX.Lib.FreeMap
import UfsX.Newfs.Initcg
import UfsX.Proofs.Geometry
import UfsX.Proofs.Initcg
import UfsX.Proofs.NewFs
import UfsX.Lib.Crc
import UfsX.Compat.Crc32c
import UfsX.Proofs.Crc32c
import UfsX.Proofs.AllocSystem
import UfsX.Proofs.NewMount
import UfsX.Proofs.DirMap
import UfsX.Proofs.Valloc
