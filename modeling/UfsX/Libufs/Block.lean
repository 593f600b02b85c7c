import UfsX.Ufs.Inode

/-!
# `UfsX.Libufs.Block`: where `bread` and `bwrite` go on the device

`block.c` of libufs. A block number counts device blocks of `d_bsize` bytes, which
`handle_disk_read` calculates from the superblock.
-/

set_option autoImplicit false

namespace UfsX.Libufs

open UfsX.Ufs (fsbtodb)
open UfsX.Ffs (Fs)

/-- `d_bsize`: `fs_fsize / fsbtodb(fs, 1)` -/
def dBsize (fs : Fs) : Int := fs.fsize / fsbtodb fs 1

/-- The byte offset at which `bread` and `bwrite` access block `blockno`. -/
def blockOffset (fs : Fs) (blockno : Int) : Int := blockno * dBsize fs

end UfsX.Libufs
