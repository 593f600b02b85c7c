import UfsX.Lib.CInt

/-!
# `UfsX.Compat.Param`: block conversions of `sys/param.h`

`daddr_t` is a signed 32-bit integer, and `btodb` and `dbtob` convert to an unsigned one first.
-/

set_option autoImplicit false

namespace UfsX.Compat

open UfsX.Lib

def DEV_BSIZE : Nat := 512

/-- `btodb(bytes, devBlockSize)` -/
def btodb (bytes : Int) (devBlockSize : Nat) : Int := toU32 bytes / devBlockSize

/-- `dbtob(db, devBlockSize)`, for an `int` as `devBlockSize`: a 32-bit product. -/
def dbtob (db : Int) (devBlockSize : Nat) : Int := toU32 (toU32 db * devBlockSize)

/-- The same macro for a `long`: a 64-bit product. -/
def dbtobLong (db : Int) (devBlockSize : Nat) : Int := toU32 db * devBlockSize

end UfsX.Compat
