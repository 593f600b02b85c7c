import UfsX.Ffs.Write
import UfsX.Proofs.Consistent

/-!
# `UfsX.Proofs.Write`: when `ffs_write` returns

The loop that looks for the end of a request counts `resid` down and tests
`ubc_resid`, which it leaves alone. It has no end for a request of one byte or more
(`scan_diverges`), so that a call comes back only where it is refused before the loop:
`ffsWrite_ok_iff`.
-/

set_option autoImplicit false

namespace UfsX.Proofs.Write

open UfsX.Lib UfsX.Ufs UfsX.Ffs UfsX.Ffs.Write

/-! ### What a write is for -/

/-- `vp'` is the file `vp` with `n` bytes of `data` written from offset `o` on. -/
structure Written (fs : Fs) (vp vp' : File) (o n : Nat) (data : Nat → UInt8) : Prop where
  size : vp'.ip.size = max vp.ip.size (o + n)
  diSize : vp'.diSize = max vp.ip.size (o + n)
  /-- Every block that the request overlaps has a disk address. -/
  mapped : ∀ lbn, lbn * fs.bsize < o + n → o < (lbn + 1) * fs.bsize → vp'.addr fs lbn ≠ 0
  stored : ∀ i, i < n → vp'.byte fs (o + i) = data i
  kept : ∀ x, x < vp.ip.size → x < o ∨ o + n ≤ x → vp'.byte fs x = vp.byte fs x
  zeroed : ∀ x, vp.ip.size ≤ x → x < o → vp'.byte fs x = 0

/-- The offset at which a request writes. -/
def startOffset (ioflag : Ioflag) (vp : File) (o : Nat) : Nat := if ioflag.append then vp.ip.size else o

/-- The call comes back, and where it has consumed the whole request without an error the
file holds what was written. -/
def WriteOk (env : Env) (fs : Fs) (maxfilesize : UInt64) (ioflag : Ioflag) (vp : File) (o n : Nat)
    (data : Nat → UInt8) : Prop :=
  ∃ fuel error vp' uio', ffsWrite env fs maxfilesize ioflag fuel vp ⟨o, n, data⟩ = some (.ret error vp' uio')
    ∧ (error = 0 ∧ uio'.resid = 0 → Written fs vp vp' (startOffset ioflag vp o) n data)

/-! ### The loop -/

/-- No number of rounds is enough. -/
theorem scan_diverges (fs : Fs) {s : Scan} (h : 0 < s.ubcResid) (fuel : Nat) : scan fs fuel s = none := by
  induction fuel generalizing s with
  | zero => exact if_pos h
  | succ fuel ih =>
      unfold scan
      rw [if_pos h]
      exact ih h

theorem writeAt_diverges {env : Env} {fs : Fs} {maxfilesize : UInt64} {ioflag : Ioflag} {vp : File} {uio : Uio}
    (ho : 0 ≤ uio.offset) (hn : 0 < uio.resid) (hsize : toU64 (uio.offset + uio.resid) ≤ maxfilesize.toNat)
    (fuel : Nat) : writeAt env fs maxfilesize ioflag fuel vp uio = none := by
  unfold writeAt
  rw [if_neg (by omega), if_neg (by omega), scan_diverges fs hn fuel]
  rfl

/-- A request that goes past the largest file comes back with an error. -/
theorem writeAt_efbig {env : Env} {fs : Fs} {maxfilesize : UInt64} {ioflag : Ioflag} {vp : File} {uio : Uio}
    (ho : 0 ≤ uio.offset) (hn : 0 < uio.resid) (hsize : maxfilesize.toNat < toU64 (uio.offset + uio.resid))
    (fuel : Nat) : writeAt env fs maxfilesize ioflag fuel vp uio = some (.ret EFBIG vp uio) := by
  unfold writeAt
  rw [if_neg (by omega), if_pos hsize]

/-! ### Requests that come back -/

/-- The request is refused before the loop: the file may only be appended to and the
offset is not its end, or the request is to be appended and does not fit. -/
def Refused (maxfilesize : UInt64) (ioflag : Ioflag) (vp : File) (o n : Nat) : Prop :=
  ioflag.ext = false ∧
    ((ioflag.append = false ∧ vp.append = true ∧ o ≠ vp.ip.size) ∨
      (ioflag.append = true ∧ maxfilesize.toNat < toU64 (vp.ip.size + n)))

theorem ffsWrite_panics {env : Env} {fs : Fs} {maxfilesize : UInt64} {ioflag : Ioflag} {vp : File} {uio : Uio}
    {fuel : Nat} (hext : ioflag.ext = true) : ffsWrite env fs maxfilesize ioflag fuel vp uio = some .panic := by
  unfold ffsWrite
  rw [if_pos hext]

/-- A request that is not refused gets to the loop. -/
theorem ffsWrite_diverges {env : Env} {fs : Fs} {maxfilesize : UInt64} {ioflag : Ioflag} {vp : File} {o n : Nat}
    {data : Nat → UInt8} (hn : 0 < n) (hmax : o + n ≤ maxfilesize.toNat) (hext : ioflag.ext = false)
    (h : ¬ Refused maxfilesize ioflag vp o n) (fuel : Nat) :
    ffsWrite env fs maxfilesize ioflag fuel vp ⟨o, n, data⟩ = none := by
  have hfits : toU64 ((o : Int) + n) ≤ maxfilesize.toNat := by
    rw [toU64_eq_self (by omega) (by have := maxfilesize.toNat_lt; omega)]
    omega
  unfold ffsWrite
  rw [if_neg (by simp [hext])]
  cases happ : ioflag.append with
  | true =>
      have hle : ¬ maxfilesize.toNat < toU64 (vp.ip.size + n) := fun hlt => h ⟨hext, .inr ⟨happ, hlt⟩⟩
      simp only [if_true, ne_eq, not_true, and_false, if_false]
      exact writeAt_diverges (Int.natCast_nonneg _) (by simpa using hn) (by simpa using hle) fuel
  | false =>
      have hopen : ¬ (vp.append = true ∧ (o : Int) ≠ vp.ip.size) :=
        fun ⟨hflag, hne⟩ => h ⟨hext, .inl ⟨happ, hflag, by simpa using hne⟩⟩
      simp only [Bool.false_eq_true, if_false]
      rw [if_neg hopen]
      exact writeAt_diverges (Int.natCast_nonneg _) (by simpa using hn) hfits fuel

/-- For every request of at least one byte within the largest file, the call comes back
with the file as it should be if and only if the request is refused. -/
theorem ffsWrite_ok_iff (env : Env) (fs : Fs) (maxfilesize : UInt64) (ioflag : Ioflag) (vp : File) (o n : Nat)
    (data : Nat → UInt8) (hn : 0 < n) (hmax : o + n ≤ maxfilesize.toNat) :
    WriteOk env fs maxfilesize ioflag vp o n data ↔ Refused maxfilesize ioflag vp o n := by
  constructor
  · rintro ⟨fuel, error, vp', uio', hret, -⟩
    by_contra hopen
    cases hext : ioflag.ext with
    | true =>
        rw [ffsWrite_panics hext] at hret
        cases hret
    | false =>
        rw [ffsWrite_diverges hn hmax hext hopen] at hret
        cases hret
  · rintro ⟨hext, ⟨happ, hflag, hne⟩ | ⟨happ, hbig⟩⟩
    · refine ⟨0, EPERM, vp, ⟨o, n, data⟩, ?_, fun h => absurd h.1 (by decide)⟩
      unfold ffsWrite
      rw [if_neg (by simp [hext])]
      simp only [happ, Bool.false_eq_true, if_false]
      rw [if_pos ⟨hflag, by simpa using hne⟩]
    · refine ⟨0, EFBIG, vp, ⟨vp.ip.size, n, data⟩, ?_, fun h => absurd h.1 (by decide)⟩
      unfold ffsWrite
      rw [if_neg (by simp [hext])]
      simp only [happ, if_true, ne_eq, not_true, and_false, if_false]
      exact writeAt_efbig (Int.natCast_nonneg _) (by simpa using hn) (by simpa using hbig) 0

/-! ### One request -/

/-- A `cluster_write` that stores the bytes of the request at the addresses of the file's
blocks. -/
def storeBytes (fs : Fs) (vp : File) (uio : Uio) : File :=
  { vp with
    disk := fun a k =>
      let inside := fun lbn : Nat =>
        decide (vp.addr fs lbn = a ∧ uio.offset ≤ lbn * fs.bsize + k ∧ lbn * fs.bsize + k < uio.offset + uio.resid)
      match (List.range ((uio.offset + uio.resid).toNat / fs.bsize + 1)).find? inside with
      | some lbn => uio.data (lbn * fs.bsize + k - uio.offset.toNat)
      | none => vp.disk a k }

def storeEnv (fs : Fs) : Env where
  clusterWrite vp uio _ _ _ :=
    (0, storeBytes fs vp uio, { uio with offset := uio.offset + uio.resid, resid := 0 })
  truncate vp _ := vp
  update vp := (0, vp)
  fsfail := false
  superuser := false

/-- An empty file without blocks. -/
def emptyFile (append : Bool) : File where
  ip := { snapshot := false, size := 0, blocks := 0, db := fun _ => 0, ib := fun _ => 0, extb := fun _ => 0 }
  diSize := 0
  ind := fun _ _ _ => 0
  disk := fun _ _ => 0
  ubcSize := 0
  setid := false
  append
  size_lt := by decide

/-- The hypotheses are met by one byte at offset 1, which an append-only file refuses. -/
theorem ffsWrite_ok_appendOnly :
    (0 < 1 ∧ 1 + 1 ≤ (1000000 : UInt64).toNat) ∧
      WriteOk (storeEnv tinyFs) tinyFs 1000000 ⟨false, false, false, false⟩ (emptyFile true) 1 1 fun _ => 7 := by
  refine ⟨⟨by decide, by decide⟩, ?_⟩
  exact (ffsWrite_ok_iff (storeEnv tinyFs) tinyFs 1000000 ⟨false, false, false, false⟩ (emptyFile true) 1 1
    (fun _ => 7) (by decide) (by decide)).mpr ⟨rfl, .inl ⟨rfl, rfl, by decide⟩⟩

/-- The write of one byte to an empty file does not come back. -/
theorem ffsWrite_one_byte_diverges :
    (∀ fuel, ffsWrite (storeEnv tinyFs) tinyFs 1000000 ⟨false, false, false, false⟩ fuel (emptyFile false)
        ⟨0, 1, fun _ => 7⟩ = none)
      ∧ ¬ WriteOk (storeEnv tinyFs) tinyFs 1000000 ⟨false, false, false, false⟩ (emptyFile false) 0 1
        fun _ => 7 := by
  have hnone : ∀ fuel, ffsWrite (storeEnv tinyFs) tinyFs 1000000 ⟨false, false, false, false⟩ fuel
      (emptyFile false) ⟨0, 1, fun _ => 7⟩ = none := by
    refine ffsWrite_diverges (by decide) (by decide) rfl ?_
    rintro ⟨-, ⟨-, hflag, -⟩ | ⟨happ, -⟩⟩
    · cases hflag
    · cases happ
  refine ⟨hnone, ?_⟩
  rintro ⟨fuel, error, vp', uio', hret, -⟩
  exact nomatch (hnone fuel).symm.trans hret

end UfsX.Proofs.Write
