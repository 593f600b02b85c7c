import UfsX.Ffs.Buffers
import UfsX.Proofs.BallocFail
import UfsX.Lib.Run
import Mathlib.Tactic.Linarith

/-!
# `UfsX.Proofs.Buffers`: which buffer belongs to which block

A buffer keeps to its block while nobody calls `buf_setlblkno` on it. The
steps below are the ones of `ffs_balloc` and `readindir` that do not, and in a
run of such steps every buffer has the number of its block.
-/

set_option autoImplicit false

namespace UfsX.Proofs

open UfsX.Lib UfsX.Ufs UfsX.Ffs
open Relation (ReflTransGen)

/-! ### Calls that leave the numbers alone -/

/-- A buffer with the number of the block it was obtained for, not mapped to
the device yet or as the cache has it. -/
def Own (c : BallocCall) (u : BufUse) : Prop :=
  u.nums.lblkno = u.req ∧ (u.nums.blkno = u.req ∨ u.nums.blkno = c.phys u.req)

/-- The file has the same pointers, and all buffers used since kept to their
blocks. -/
structure Kept (c : BallocCall) (s s' : Growth) : Prop where
  db : s'.ip.db = s.ip.db
  ib : s'.ip.ib = s.ip.ib
  ind : s'.ind = s.ind
  bufs : ∃ new, s'.bufs = new ++ s.bufs ∧ ∀ u ∈ new, Own c u

section Kept

variable {c : BallocCall} {s t u : Growth}

theorem kept_of_eq (hdb : t.ip.db = s.ip.db) (hib : t.ip.ib = s.ip.ib) (hind : t.ind = s.ind)
    (hbufs : t.bufs = s.bufs) : Kept c s t :=
  ⟨hdb, hib, hind, [], hbufs, by simp⟩

theorem Kept.refl (s : Growth) : Kept c s s := kept_of_eq rfl rfl rfl rfl

theorem Kept.trans (h1 : Kept c s t) (h2 : Kept c t u) : Kept c s u := by
  obtain ⟨new1, hb1, hu1⟩ := h1.bufs
  obtain ⟨new2, hb2, hu2⟩ := h2.bufs
  refine ⟨h2.db.trans h1.db, h2.ib.trans h1.ib, h2.ind.trans h1.ind, new2 ++ new1, ?_, ?_⟩
  · rw [hb2, hb1, List.append_assoc]
  · intro u hu
    exact (List.mem_append.mp hu).elim (hu2 u) (hu1 u)

/-- One more use, of a buffer that a read returned. -/
theorem Kept.use (h : Kept c s t) (n : Int) (act : BufAct) :
    Kept c s (t.use n ⟨n, c.phys n⟩ act) := by
  refine h.trans ⟨rfl, rfl, rfl, [⟨n, ⟨n, c.phys n⟩, act⟩], rfl, fun u hu => ?_⟩
  obtain rfl := List.mem_singleton.mp hu
  exact ⟨rfl, .inr rfl⟩

/-- Storing the pointer that was there. -/
theorem Kept.store {fs : Fs} {n : Nat} {a : Int} (h : Kept c s t)
    (ha : storedPtr fs a = s.ip.db n) : Kept c s (t.setDb n (ptrCast fs (dbtofsb fs a))) := by
  refine ⟨?_, h.ib, h.ind, h.bufs⟩
  show Function.update t.ip.db n (storedPtr fs a) = s.ip.db
  rw [ha, h.db, Function.update_eq_self]

theorem kept_bread (s : Growth) (c : BallocCall) (n : Int) : Kept c s (s.bread c n).1 := by
  simp only [Growth.bread]
  split
  · exact .refl s
  · refine ⟨rfl, rfl, rfl, [⟨n, BufNums.getblk n, .read⟩], rfl, fun u hu => ?_⟩
    obtain rfl := List.mem_singleton.mp hu
    exact ⟨rfl, .inl rfl⟩

end Kept

/-! ### `ffs_realloccg` -/

/-- An attempt that finds the buffer mapped to the device, and neither moves
the fragment. -/
def TryKeeps (c : BallocCall) (t : ReallocTry) (n bprev : Int) : Prop :=
  t.space = true → bprev ≠ 0 → t.readErr = none →
    c.phys n ≠ n ∧ (t.extended = true ∨ t.found = none)

/-- An attempt that finds no space. -/
def TryFails (t : ReallocTry) (bprev : Int) : Prop :=
  t.space = false ∨
    (bprev ≠ 0 ∧ t.readErr = none ∧ t.extended = false ∧ t.found = none)

/-- All attempts that are made leave the buffer alone. -/
def ReallocKeeps (c : BallocCall) (tries : Nat → ReallocTry) (n bprev : Int) : Prop :=
  TryKeeps c (tries 0) n bprev ∧
    (c.buflocked = false → TryFails (tries 0) bprev → TryKeeps c (tries 1) n bprev)

/-- A device address that the 32-bit macro gets right determines the pointer. -/
theorem storedPtr_of_mapped {fs : Fs} {a b : Int} (hok : AddrOk fs b) (ha : a = blkptrtodb fs b)
    (hfs : a = fsbtodb fs b) : storedPtr fs a = b := by
  have hpos : (0 : Int) < 2 ^ fs.fsbtodb := Int.pow_pos (by decide)
  rw [hok.blkptrtodb_eq] at ha
  have hdiv : dbtofsb fs a = b := by
    rw [ha, dbtofsb, Int.mul_ediv_cancel _ (by omega)]
  rw [storedPtr, hdiv, ptrCast]
  cases fs.magic with
  | ufs2 => rfl
  | ufs1 =>
      -- the address fits in 32 bits, and the pointer is not larger
      have hlo : -2 ^ 31 ≤ b * 2 ^ fs.fsbtodb := by
        rw [← ha, hfs]
        exact (toI32_bounds _).1
      have hhi : b * 2 ^ fs.fsbtodb < 2 ^ 31 := by
        rw [← ha, hfs]
        exact (toI32_bounds _).2
      have hone : (1 : Int) ≤ 2 ^ fs.fsbtodb := by omega
      refine toI32_eq_self ?_ ?_
      · nlinarith
      · nlinarith

section Realloccg

variable {mp : Ump} {c : BallocCall} {s s' : Growth} {n bprev : Int} {osize nsize : Nat}

theorem realloccgTry_kept {t : ReallocTry} {r : Option (Outcome BufNums)}
    (hkeeps : TryKeeps c t n bprev) (haddr : AddrOk mp.fs bprev)
    (hmapped : c.phys n ≠ n → c.phys n = blkptrtodb mp.fs bprev)
    (h : realloccgTry mp c t s n bprev osize nsize = (r, s')) :
    Kept c s s' ∧ (r = none → TryFails t bprev) ∧
      ∀ bp, r = some (.ok bp) → bp = ⟨n, c.phys n⟩ ∧ storedPtr mp.fs (c.phys n) = bprev := by
  unfold realloccgTry at h
  split at h
  · next hsp =>
      obtain ⟨rfl, rfl⟩ := Prod.mk.inj h
      exact ⟨.refl s, fun _ => .inl hsp, by simp⟩
  · next hsp =>
      split at h
      · obtain ⟨rfl, rfl⟩ := Prod.mk.inj h
        exact ⟨.refl s, by simp, by simp⟩
      · next hb =>
          cases hre : t.readErr with
          | some e =>
              simp only [hre] at h
              obtain ⟨rfl, rfl⟩ := Prod.mk.inj h
              exact ⟨.refl s, by simp, by simp⟩
          | none =>
              obtain ⟨hne, hplace⟩ := hkeeps (by simpa using hsp) hb hre
              have hread := kept_bread s c n
              rcases hrd : s.bread c n with ⟨s₁, bp⟩
              rw [hrd] at hread
              obtain rfl : ⟨n, c.phys n⟩ = bp := (Prod.mk.inj hrd).2
              simp only [hre, hrd, if_neg hne, realloccgPlace] at h
              split at h
              · split at h
                · next hx hfs =>
                    obtain ⟨rfl, rfl⟩ := Prod.mk.inj h
                    refine ⟨hread.trans (kept_of_eq rfl rfl rfl rfl), by simp, fun bp hbp => ?_⟩
                    obtain rfl := Outcome.ok.inj (Option.some.inj hbp)
                    exact ⟨rfl, storedPtr_of_mapped haddr (hmapped hne) hfs⟩
                · obtain ⟨rfl, rfl⟩ := Prod.mk.inj h
                  exact ⟨hread, by simp, by simp⟩
              · next hx =>
                  have hx' : t.extended = false := by simpa using hx
                  have hf : t.found = none := hplace.resolve_left (by simp [hx'])
                  simp only [hf] at h
                  obtain ⟨rfl, rfl⟩ := Prod.mk.inj h
                  exact ⟨hread.use n .release, fun _ => .inr ⟨hb, hre, hx', hf⟩, by simp⟩

theorem ffsRealloccg_kept {tries : Nat → ReallocTry} {r : Outcome BufNums}
    (hkeeps : ReallocKeeps c tries n bprev) (haddr : AddrOk mp.fs bprev)
    (hmapped : c.phys n ≠ n → c.phys n = blkptrtodb mp.fs bprev)
    (h : ffsRealloccg mp c tries s n bprev osize nsize = (r, s')) :
    Kept c s s' ∧
      ∀ bp, r = .ok bp → bp = ⟨n, c.phys n⟩ ∧ storedPtr mp.fs (c.phys n) = bprev := by
  rw [ffsRealloccg] at h
  rcases hr : realloccgTry mp c (tries 0) s n bprev osize nsize with ⟨r₁, s₁⟩
  obtain ⟨hk, hnone, hok⟩ := realloccgTry_kept hkeeps.1 haddr hmapped hr
  simp only [hr] at h
  cases r₁ with
  | some o =>
      obtain ⟨rfl, rfl⟩ := Prod.mk.inj h
      exact ⟨hk, fun bp hbp => hok bp (congrArg some hbp)⟩
  | none =>
      simp only at h
      split at h
      · obtain ⟨rfl, rfl⟩ := Prod.mk.inj h
        exact ⟨hk, by simp⟩
      · next hlock =>
          rcases hr' : realloccgTry mp c (tries 1) s₁ n bprev osize nsize with ⟨r₂, s₂⟩
          obtain ⟨hk', -, hok'⟩ :=
            realloccgTry_kept (hkeeps.2 (by simpa using hlock) (hnone rfl)) haddr hmapped hr'
          simp only [hr'] at h
          cases r₂ with
          | some o =>
              obtain ⟨rfl, rfl⟩ := Prod.mk.inj h
              exact ⟨hk.trans hk', fun bp hbp => hok' bp (congrArg some hbp)⟩
          | none =>
              obtain ⟨rfl, rfl⟩ := Prod.mk.inj h
              exact ⟨hk.trans hk', by simp⟩

end Realloccg

/-! ### `ffs_balloc` -/

/-- The last fragment, if it has to become a block, stays where it is. -/
def PromotionKeeps (mp : Ump) (c : BallocCall) (s : Growth) (lbn : Nat) : Prop :=
  needsPromotion mp.fs s.ip lbn →
    ReallocKeeps c c.promote (s.ip.size / mp.fs.bsize : Nat)
      (s.ip.db (s.ip.size / mp.fs.bsize))

/-- A call for direct block `lbn` in a file of `isize` bytes that does not get
to `buf_setlblkno`: it fails before, or it enlarges the fragment in place. -/
def DirectKeeps (mp : Ump) (c : BallocCall) (db : Nat → Int) (isize lbn size : Nat) : Prop :=
  c.metaonly = true ∨
    if db lbn ≠ 0 ∧ mp.fs.lblktosize (lbn + 1) ≤ isize then
      c.clrbuf = true ∧ c.readErr lbn ≠ none
    else if db lbn = 0 then ∃ e, c.alloc lbn = .error e
    else if mp.fs.fragroundup size ≤ mp.fs.fragroundup (mp.fs.blkoff isize) then
      c.readErr lbn ≠ none
    else ReallocKeeps c c.grow lbn (db lbn)

/-- The same for a walk through the indirect blocks: it fails before a block
is allocated, it ends at the indirect block, or it reads a data block whose
number survives the cast to `int`. -/
def WalkKeeps (mp : Ump) (c : BallocCall) (ind : Int → Nat → Int) (lbn : Nat) :
    Indir → List Indir → Prop
  | ap, rest =>
      c.readErr ap.lbn = none → ufsCheckBlkno mp.fs mp.untrusted (ind ap.lbn ap.off) = none →
        match rest with
        | [] =>
            c.metaonly = true ∨
              if ind ap.lbn ap.off = 0 then ∃ e, c.alloc lbn = .error e
              else c.clrbuf = true ∧ (c.readErr (toI32 lbn) = none → lbn < 2 ^ 31)
        | ap' :: rest =>
            if ind ap.lbn ap.off = 0 then ∃ e, c.alloc ap'.lbn = .error e
            else WalkKeeps mp c ind lbn ap' rest

/-- A call for block `lbn`, after the promotion step. -/
def BlockKeeps (mp : Ump) (c : BallocCall) (ip : Inode) (ind : Int → Nat → Int)
    (isize lbn size : Nat) : Prop :=
  if lbn < ndaddr then DirectKeeps mp c ip.db isize lbn size
  else
    match ufsGetlbns mp.fs.nindir lbn with
    | .ok (top :: ap :: rest) =>
        if ip.ib top.off = 0 then ∃ e, c.alloc ap.lbn = .error e
        else WalkKeeps mp c ind lbn ap rest
    | _ => True

/-- A call of `ffs_balloc` that does not change a buffer's logical number. -/
def BallocKeeps (mp : Ump) (c : BallocCall) (s : Growth) (startoffset : Int) (size : Nat) :
    Prop :=
  let lbn := (mp.fs.lblkno startoffset).toNat
  PromotionKeeps mp c s lbn ∧
    BlockKeeps mp c s.ip s.ind (promotedSize mp.fs s.ip lbn) lbn
      ((startoffset % mp.fs.bsize).toNat + size)

section Balloc

variable {mp : Ump} {c : BallocCall} {s s' : Growth} {lbn size : Nat} {r : Outcome Unit}

/-- A buffer that is mapped to the device has the address of its block. -/
def Mapped (mp : Ump) (c : BallocCall) (db : Nat → Int) : Prop :=
  ∀ n : Nat, n < ndaddr → AddrOk mp.fs (db n) ∧ (c.phys n ≠ n → c.phys n = blkptrtodb mp.fs (db n))

theorem ballocPromote_kept (hmapped : Mapped mp c s.ip.db) (hkeeps : PromotionKeeps mp c s lbn)
    (h : ballocPromote mp c s lbn = (r, s')) :
    Kept c s s' ∧ (r = .ok () → s'.ip.size = promotedSize mp.fs s.ip lbn) := by
  unfold ballocPromote at h
  split at h
  · next hn =>
      have hnb : s.ip.size / mp.fs.bsize < ndaddr := by
        unfold needsPromotion at hn
        simp only [decide_eq_true_eq] at hn
        exact hn.1
      rcases hr : ffsRealloccg mp c c.promote s (s.ip.size / mp.fs.bsize : Nat)
        (s.ip.db (s.ip.size / mp.fs.bsize)) (blksize mp.fs s.ip (s.ip.size / mp.fs.bsize : Nat))
        mp.fs.bsize with ⟨o, s₁⟩
      obtain ⟨hk, hok⟩ := ffsRealloccg_kept (hkeeps hn) (hmapped _ hnb).1 (hmapped _ hnb).2 hr
      simp only [hr] at h
      cases o with
      | error e =>
          obtain ⟨rfl, rfl⟩ := Prod.mk.inj h
          exact ⟨hk, by simp⟩
      | panic =>
          obtain ⟨rfl, rfl⟩ := Prod.mk.inj h
          exact ⟨hk, by simp⟩
      | ok bp =>
          obtain ⟨rfl, hstored⟩ := hok bp rfl
          obtain ⟨rfl, rfl⟩ := Prod.mk.inj h
          refine ⟨?_, fun _ => by simp [promotedSize, hn, Growth.setDb, Growth.use]⟩
          have hsize : Kept c s { s₁ with ip := { s₁.ip with
              size := mp.fs.lblktosize (s.ip.size / mp.fs.bsize + 1) } } :=
            hk.trans (kept_of_eq rfl rfl rfl rfl)
          exact (hsize.store hstored).use _ _
  · next hn =>
      obtain ⟨rfl, rfl⟩ := Prod.mk.inj h
      exact ⟨.refl s, fun _ => by simp [promotedSize, hn]⟩

theorem ballocDirect_kept (hlbn : lbn < ndaddr) (hmapped : Mapped mp c s.ip.db)
    (hkeeps : DirectKeeps mp c s.ip.db s.ip.size lbn size)
    (h : ballocDirect mp c s lbn size = (r, s')) : Kept c s s' := by
  unfold ballocDirect at h
  split at h
  · obtain ⟨-, rfl⟩ := Prod.mk.inj h
    exact .refl s
  · next hm =>
      replace hkeeps := hkeeps.resolve_left hm
      split at h
      · next hfull =>
          rw [if_pos hfull] at hkeeps
          obtain ⟨hclr, hre⟩ := hkeeps
          obtain ⟨e, he⟩ := Option.ne_none_iff_exists'.mp hre
          simp only [ballocFull, hclr, he, if_true] at h
          obtain ⟨-, rfl⟩ := Prod.mk.inj h
          exact .refl s
      · next hfull =>
          rw [if_neg hfull] at hkeeps
          unfold ballocFragment at h
          by_cases h0 : s.ip.db lbn = 0
          · rw [if_pos h0] at hkeeps
            obtain ⟨e, he⟩ := hkeeps
            simp only [h0, ne_eq, not_true_eq_false, if_false, ffsAlloc, he] at h
            obtain ⟨-, rfl⟩ := Prod.mk.inj h
            exact .refl s
          · rw [if_neg h0] at hkeeps
            simp only [h0, ne_eq, not_false_eq_true, if_true] at h
            split at h
            · next hsz =>
                rw [if_pos hsz] at hkeeps
                obtain ⟨e, he⟩ := Option.ne_none_iff_exists'.mp hkeeps
                simp only [he] at h
                obtain ⟨-, rfl⟩ := Prod.mk.inj h
                exact .refl s
            · next hsz =>
                rw [if_neg hsz] at hkeeps
                rcases hr : ffsRealloccg mp c c.grow s lbn (s.ip.db lbn)
                  (mp.fs.fragroundup (mp.fs.blkoff s.ip.size)) (mp.fs.fragroundup size)
                  with ⟨o, s₁⟩
                obtain ⟨hk, hok⟩ := ffsRealloccg_kept hkeeps (hmapped _ hlbn).1 (hmapped _ hlbn).2 hr
                simp only [hr] at h
                cases o with
                | error e =>
                    obtain ⟨-, rfl⟩ := Prod.mk.inj h
                    exact hk
                | panic =>
                    obtain ⟨-, rfl⟩ := Prod.mk.inj h
                    exact hk
                | ok bp =>
                    obtain ⟨rfl, hstored⟩ := hok bp rfl
                    obtain ⟨-, rfl⟩ := Prod.mk.inj h
                    exact (hk.store hstored).use _ _

theorem ballocData_kept {ap : Indir} {e : Option Errno}
    (hkeeps : c.metaonly = true ∨
      if s.ind ap.lbn ap.off = 0 then ∃ e, c.alloc lbn = .error e
      else c.clrbuf = true ∧ (c.readErr (toI32 lbn) = none → lbn < 2 ^ 31))
    (h : ballocData mp c s lbn ap ⟨ap.lbn, c.phys ap.lbn⟩ = (s', e)) : Kept c s s' := by
  unfold ballocData at h
  by_cases hm : c.metaonly = true
  · simp only [hm, if_true] at h
    obtain ⟨rfl, -⟩ := Prod.mk.inj h
    exact (Kept.refl s).use _ _
  · replace hkeeps := hkeeps.resolve_left hm
    by_cases h0 : s.ind ap.lbn ap.off = 0
    · rw [if_pos h0] at hkeeps
      obtain ⟨e', he⟩ := hkeeps
      simp only [hm, h0, ffsAlloc, he, if_true] at h
      obtain ⟨rfl, -⟩ := Prod.mk.inj h
      exact (Kept.refl s).use _ _
    · rw [if_neg h0] at hkeeps
      obtain ⟨hclr, hlt⟩ := hkeeps
      simp only [hm, h0, hclr, if_true, if_false] at h
      cases hre : c.readErr (toI32 lbn) with
      | some e' =>
          simp only [hre] at h
          obtain ⟨rfl, -⟩ := Prod.mk.inj h
          exact (Kept.refl s).use _ _
      | none =>
          have hself : toI32 lbn = lbn := by
            have := hlt hre
            exact toI32_eq_self (by omega) (by omega)
          rw [hself] at hre
          simp only [hself, hre] at h
          obtain ⟨rfl, -⟩ := Prod.mk.inj h
          exact (((Kept.refl s).use _ _).trans (kept_bread _ c lbn)).use _ _

/-- A walk that keeps the buffers links nothing in, and a failed one has
allocated nothing. -/
theorem ballocWalk_kept {ap : Indir} {rest : List Indir}
    (hkeeps : WalkKeeps mp c s.ind lbn ap rest) :
    let w := ballocWalk mp c lbn false s none ap rest
    Kept c s w.st ∧ (w.err ≠ none → w.unwind = none ∧ w.st.allocs = s.allocs) := by
  induction rest generalizing s ap with
  | nil =>
      intro w
      have hcases := ballocWalk_nil_cases mp c lbn false s none ap
      refine ⟨?_, fun herr => ⟨hcases.1, ?_⟩⟩
      · simp only [w]
        rw [ballocWalk]
        cases hre : c.readErr ap.lbn with
        | some e => exact .refl s
        | none =>
            rcases hb : s.bread c ap.lbn with ⟨s₁, bp⟩
            have hread : Kept c s s₁ := by
              have := kept_bread s c ap.lbn
              rwa [hb] at this
            obtain rfl : ⟨ap.lbn, c.phys ap.lbn⟩ = bp := (Prod.mk.inj hb).2
            simp only [hread.ind]
            cases hck : ufsCheckBlkno mp.fs mp.untrusted (s.ind ap.lbn ap.off) with
            | some e => exact hread.use _ _
            | none =>
                rw [WalkKeeps] at hkeeps
                replace hkeeps := hkeeps hre hck
                rw [← hread.ind] at hkeeps
                exact hread.trans (ballocData_kept hkeeps rfl)
      · rcases hcases.2 with ⟨hsame, -⟩ | ⟨-, -, hnone, -⟩
        · exact hsame.allocs
        · exact absurd hnone herr
  | cons ap' rest ih =>
      intro w
      simp only [w]
      rw [ballocWalk]
      cases hre : c.readErr ap.lbn with
      | some e => exact ⟨.refl s, fun _ => ⟨rfl, rfl⟩⟩
      | none =>
          rcases hb : s.bread c ap.lbn with ⟨s₁, bp⟩
          have hread : Kept c s s₁ := by
            have := kept_bread s c ap.lbn
            rwa [hb] at this
          have hsame : SameFile s s₁ := by
            have := sameFile_bread s c ap.lbn
            rwa [hb] at this
          obtain rfl : ⟨ap.lbn, c.phys ap.lbn⟩ = bp := (Prod.mk.inj hb).2
          simp only [hread.ind]
          cases hck : ufsCheckBlkno mp.fs mp.untrusted (s.ind ap.lbn ap.off) with
          | some e => exact ⟨hread.use _ _, fun _ => ⟨rfl, hsame.allocs⟩⟩
          | none =>
              rw [WalkKeeps] at hkeeps
              replace hkeeps := hkeeps hre hck
              by_cases h0 : s.ind ap.lbn ap.off = 0
              · simp only [h0, if_true] at hkeeps
                obtain ⟨e, he⟩ := hkeeps
                simp only [h0, ne_eq, not_true_eq_false, if_false, ffsAlloc, he]
                exact ⟨hread.use _ _, fun _ => ⟨trivial, hsame.allocs⟩⟩
              · simp only [h0, if_false] at hkeeps
                simp only [h0, ne_eq, not_false_eq_true, if_true]
                have hnext := hread.use ap.lbn .write
                rw [← hnext.ind] at hkeeps
                obtain ⟨hk, herr⟩ := ih hkeeps
                exact ⟨hnext.trans hk, fun h => ⟨(herr h).1, (herr h).2.trans hsame.allocs⟩⟩

theorem ballocBlock_kept (hmapped : Mapped mp c s.ip.db)
    (hkeeps : BlockKeeps mp c s.ip s.ind s.ip.size lbn size)
    (h : ballocBlock mp c s lbn size = (r, s')) : Kept c s s' := by
  unfold ballocBlock at h
  unfold BlockKeeps at hkeeps
  split at h
  · next hlbn =>
      rw [if_pos hlbn] at hkeeps
      exact ballocDirect_kept hlbn hmapped hkeeps h
  · next hlbn =>
      rw [if_neg hlbn] at hkeeps
      split at h
      · obtain ⟨-, rfl⟩ := Prod.mk.inj h
        exact .refl s
      · next top ap rest hpath =>
          simp only [hpath] at hkeeps
          unfold ballocIndir at h
          by_cases hib : s.ip.ib top.off = 0
          · simp only [hib, if_true] at hkeeps
            obtain ⟨e, he⟩ := hkeeps
            simp only [hib, ne_eq, not_true_eq_false, if_false, ffsAlloc, he] at h
            obtain ⟨-, rfl⟩ := Prod.mk.inj h
            exact .refl s
          · simp only [hib, if_false] at hkeeps
            simp only [hib, ne_eq, not_false_eq_true, if_true] at h
            obtain ⟨hk, herr⟩ := ballocWalk_kept hkeeps
            unfold ballocFinish at h
            split at h
            · obtain ⟨-, rfl⟩ := Prod.mk.inj h
              exact hk
            · next e he =>
                -- nothing was allocated, so `fail` returns at once
                obtain ⟨hu, ha⟩ := herr (by simp [he])
                simp only [ballocFail, hu, ha, Nat.sub_self, List.take_zero, and_self,
                  if_true] at h
                obtain ⟨-, rfl⟩ := Prod.mk.inj h
                exact hk
      · obtain ⟨-, rfl⟩ := Prod.mk.inj h
        exact .refl s

theorem ffsBalloc_kept {startoffset : Int} (hmapped : Mapped mp c s.ip.db)
    (hkeeps : BallocKeeps mp c s startoffset size)
    (h : ffsBalloc mp c s startoffset size = (r, s')) : Kept c s s' := by
  obtain ⟨hprom, hblock⟩ := hkeeps
  unfold ffsBalloc at h
  simp only at h
  split at h
  · obtain ⟨-, rfl⟩ := Prod.mk.inj h
    exact .refl s
  split at h
  · obtain ⟨-, rfl⟩ := Prod.mk.inj h
    exact .refl s
  rcases hp : ballocPromote mp c s (mp.fs.lblkno startoffset).toNat with ⟨o, s₁⟩
  obtain ⟨hk, hsize⟩ := ballocPromote_kept hmapped hprom hp
  rw [hp] at h
  cases o with
  | error e =>
      obtain ⟨-, rfl⟩ := Prod.mk.inj h
      exact hk
  | panic =>
      obtain ⟨-, rfl⟩ := Prod.mk.inj h
      exact hk
  | ok u =>
      refine hk.trans (ballocBlock_kept ?_ ?_ h)
      · rw [hk.db]
        exact hmapped
      · rw [hsize rfl, hk.ind]
        unfold BlockKeeps at hblock ⊢
        rw [hk.db, hk.ib]
        exact hblock

end Balloc

/-! ### Runs -/

/-- The block tree holds pointer `b` for logical block `n`, which is negative
for an indirect block. -/
inductive TreePtr (mp : Ump) (s : Growth) (n : Int) : Int → Prop
  | data {lbn : Nat} (hn : n = lbn) : TreePtr mp s n (filePtr mp s lbn)
  | top {l : Nat} (hl : l < niaddr) (hn : n = indirLbn mp.fs.nindir l (l + 1) 0) :
      TreePtr mp s n (s.ip.ib l)
  | node {l h m i : Nat} (hl : l < niaddr) (hr : Reached mp s l (h + 2) m)
      (hi : i < mp.fs.nindir)
      (hn : n = indirLbn mp.fs.nindir l (h + 1) (m * mp.fs.nindir + i)) :
      TreePtr mp s n (s.ind (indirLbn mp.fs.nindir l (h + 2) m) i)

/-- The device address at which a buffer is transferred: `buf_strategy` asks
`VNOP_BLOCKMAP` for the block of this number when the two numbers are equal,
and goes by the physical number when they are not. -/
def StrategyAddr (mp : Ump) (s : Growth) (nums : BufNums) (a : Int) : Prop :=
  if nums.lblkno = nums.blkno then ∃ b, TreePtr mp s nums.lblkno b ∧ a = blkptrtodb mp.fs b
  else a = nums.blkno

/-- A use of a buffer that is bound to its block: it has the number it was
obtained by when it is given back, and it is transferred at the address of its
block. -/
structure Bound (mp : Ump) (s : Growth) (u : BufUse) : Prop where
  lblkno : u.act ≠ .read → u.nums.lblkno = u.req
  addr : ∀ b, TreePtr mp s u.req b → b ≠ 0 → StrategyAddr mp s u.nums (blkptrtodb mp.fs b)

/-- A file, its buffers, and the uses so far with the file they are judged by:
as it was before the call for a read, as it is afterwards for the others. -/
structure FileBufs where
  file : Growth
  cache : Cache
  uses : List (Growth × BufUse)

/-- The uses `new` of a call that leads from file `s` to `s'`. -/
def FileBufs.after (x : FileBufs) (s' : Growth) (new : List BufUse) : FileBufs where
  file := s'
  cache := x.cache.putAll new
  uses := (new.map fun u => (if u.act = .read then x.file else s', u)) ++ x.uses

/-- The physical numbers that the reads of a call return are those of the
cached buffers; the transfer may have mapped a buffer to the device. -/
def Agrees (mp : Ump) (x : FileBufs) (c : BallocCall) : Prop :=
  ∀ n, c.phys n = (x.cache.getblk n).blkno ∨
    ((x.cache.getblk n).blkno = n ∧ ∃ b, TreePtr mp x.file n b ∧ c.phys n = blkptrtodb mp.fs b)

/-- A call on the file's buffers. -/
inductive BufOp where
  | balloc (c : BallocCall) (startoffset : Int) (size : Nat)
  | realloccg (c : BallocCall) (lbprev : Nat) (osize nsize : Nat)
  | readindir (valid : Bool) (lbn daddr : Int)

/-- The calls, and what the buffer layer does by itself: a buffer is mapped to
the device when it is written, and dropped. `P` restricts the calls. -/
inductive BufStep (mp : Ump) (P : FileBufs → BufOp → Prop) : FileBufs → FileBufs → Prop
  | balloc {x : FileBufs} {c : BallocCall} {startoffset : Int} {size : Nat} {r : Outcome Unit}
      {s' : Growth} {new : List BufUse} (hP : P x (.balloc c startoffset size))
      (hag : Agrees mp x c) (heq : ffsBalloc mp c x.file startoffset size = (r, s'))
      (hnew : s'.bufs = new ++ x.file.bufs) : BufStep mp P x (x.after s' new)
  | realloccg {x : FileBufs} {c : BallocCall} {lbprev osize nsize : Nat} {r : Outcome BufNums}
      {s' : Growth} {new : List BufUse} (hP : P x (.realloccg c lbprev osize nsize))
      (hlbn : lbprev < ndaddr) (hag : Agrees mp x c)
      (heq : ffsRealloccg mp c c.grow x.file lbprev (x.file.ip.db lbprev) osize nsize = (r, s'))
      (hnew : s'.bufs = new ++ x.file.bufs) :
      BufStep mp P x (x.after s' (match r with
        | .ok bp => ⟨lbprev, bp, .ret⟩ :: new
        | _ => new))
  | readindir {x : FileBufs} {valid : Bool} {lbn daddr : Int} (hP : P x (.readindir valid lbn daddr))
      (hptr : TreePtr mp x.file lbn daddr) :
      BufStep mp P x (x.after x.file (readindirUses mp.fs x.cache valid lbn daddr))
  | map {x : FileBufs} {n b : Int} (hmem : BufNums.getblk n ∈ x.cache)
      (hptr : TreePtr mp x.file n b) :
      BufStep mp P x { x with
        cache := ⟨n, blkptrtodb mp.fs b⟩ :: x.cache.filter fun b => b.lblkno ≠ n }
  | drop {x : FileBufs} {n : Int} :
      BufStep mp P x { x with cache := x.cache.filter fun b => b.lblkno ≠ n }

/-- The calls that do not change a buffer's logical number: `ffs_balloc` and
`ffs_realloccg` as above, in a file whose direct pointers are block addresses, and `readindir` of
a block that is in the cache. -/
def KeepsNumbers (mp : Ump) (x : FileBufs) : BufOp → Prop
  | .balloc c startoffset size =>
      BallocKeeps mp c x.file startoffset size ∧ ∀ n, AddrOk mp.fs (x.file.ip.db n)
  | .realloccg c lbprev _ _ =>
      ReallocKeeps c c.grow lbprev (x.file.ip.db lbprev) ∧ ∀ n, AddrOk mp.fs (x.file.ip.db n)
  | .readindir valid _ _ => valid = true

/-- The cache holds one buffer for a block, with the block's number, which is
not mapped to the device yet or has the block's address. -/
structure CacheOk (mp : Ump) (s : Growth) (cache : Cache) : Prop where
  distinct : cache.Pairwise fun b b' => b.lblkno ≠ b'.lblkno
  blkno : ∀ b ∈ cache, b.blkno = b.lblkno ∨
    ∃ p, TreePtr mp s b.lblkno p ∧ b.blkno = blkptrtodb mp.fs p

/-- What holds in every state of a run: every use so far was bound to its
block, and the next `getblk` of a block finds its own buffer. -/
structure BufsOk (mp : Ump) (x : FileBufs) : Prop where
  cache : CacheOk mp x.file x.cache
  uses : ∀ p ∈ x.uses, Bound mp p.1 p.2

section Run

variable {mp : Ump} {s s' : Growth} {x y : FileBufs}

theorem indirLbn_neg (N l h m : Nat) : indirLbn N l (h + 1) m < 0 := by
  have := ndaddr_le_levelBase N l
  unfold indirLbn metaLbn
  unfold ndaddr at this
  generalize m * N ^ (h + 1) = k
  omega

theorem child_bounds {l h m i : Nat} (hr : Reached mp s l (h + 2) m) (hi : i < mp.fs.nindir) :
    1 ≤ h + 1 ∧ h + 1 ≤ l + 1 ∧
      (m * mp.fs.nindir + i + 1) * mp.fs.nindir ^ (h + 1) ≤ mp.fs.nindir ^ (l + 1) := by
  obtain ⟨-, h1, h2⟩ := hr.bounds
  refine ⟨by omega, by omega, Nat.le_trans ?_ h2⟩
  calc (m * mp.fs.nindir + i + 1) * mp.fs.nindir ^ (h + 1)
      ≤ (m * mp.fs.nindir + mp.fs.nindir) * mp.fs.nindir ^ (h + 1) :=
        Nat.mul_le_mul_right _ (by omega)
    _ = (m + 1) * mp.fs.nindir ^ (h + 2) := by rw [Nat.pow_succ]; ring

theorem mul_add_div_mod {N m i : Nat} (hi : i < N) :
    (m * N + i) / N = m ∧ (m * N + i) % N = i := by
  rw [Nat.mul_comm, Nat.mul_add_div (by omega), Nat.div_eq_of_lt hi, Nat.mul_add_mod,
    Nat.mod_eq_of_lt hi]
  exact ⟨rfl, rfl⟩

/-- The tree holds one pointer for a block. -/
theorem TreePtr.unique {n b b' : Int} (h : TreePtr mp s n b) (h' : TreePtr mp s n b') : b = b' := by
  have hN := mp.fs.four_le_nindir
  have htop : ∀ l, 1 ≤ l + 1 ∧ l + 1 ≤ l + 1 ∧
      (0 + 1) * mp.fs.nindir ^ (l + 1) ≤ mp.fs.nindir ^ (l + 1) :=
    fun l => ⟨by omega, Nat.le_refl _, by simp⟩
  cases h with
  | @data lbn hn =>
      cases h' with
      | @data lbn' hn' =>
          obtain rfl : lbn = lbn' := by omega
          rfl
      | @top l hl hn' =>
          have := indirLbn_neg mp.fs.nindir l l 0
          omega
      | @node l h m i hl hr hi hn' =>
          have := indirLbn_neg mp.fs.nindir l h (m * mp.fs.nindir + i)
          omega
  | @top l hl hn =>
      cases h' with
      | @data lbn hn' =>
          have := indirLbn_neg mp.fs.nindir l l 0
          omega
      | @top l' hl' hn' =>
          obtain ⟨rfl, -⟩ := indirLbn_inj hN hl hl' (htop l) (htop l') (hn.symm.trans hn')
          rfl
      | @node l' h m i hl' hr hi hn' =>
          obtain ⟨rfl, hh, -⟩ :=
            indirLbn_inj hN hl hl' (htop l) (child_bounds hr hi) (hn.symm.trans hn')
          have := hr.bounds.2.1
          omega
  | @node l h m i hl hr hi hn =>
      cases h' with
      | @data lbn hn' =>
          have := indirLbn_neg mp.fs.nindir l h (m * mp.fs.nindir + i)
          omega
      | @top l' hl' hn' =>
          obtain ⟨rfl, hh, -⟩ :=
            indirLbn_inj hN hl hl' (child_bounds hr hi) (htop l') (hn.symm.trans hn')
          have := hr.bounds.2.1
          omega
      | @node l' h' m' i' hl' hr' hi' hn' =>
          obtain ⟨rfl, hh, hm⟩ := indirLbn_inj hN hl hl' (child_bounds hr hi)
            (child_bounds hr' hi') (hn.symm.trans hn')
          obtain rfl : h = h' := by omega
          obtain ⟨hm1, hi1⟩ := mul_add_div_mod (m := m) hi
          obtain ⟨hm2, hi2⟩ := mul_add_div_mod (m := m') hi'
          obtain rfl : m = m' := by rw [← hm1, hm, hm2]
          obtain rfl : i = i' := by rw [← hi1, hm, hi2]
          rfl

/-- Files with the same pointers have the same tree. -/
theorem TreePtr.congr (hdb : s'.ip.db = s.ip.db) (hib : s'.ip.ib = s.ip.ib)
    (hind : s'.ind = s.ind) {n b : Int} (h : TreePtr mp s n b) : TreePtr mp s' n b := by
  cases h with
  | @data lbn hn =>
      have hptr : filePtr mp s lbn = filePtr mp s' lbn := by
        simp only [filePtr, bptr, hdb, hib, hind]
      rw [hptr]
      exact .data hn
  | top hl hn =>
      rw [← hib]
      exact .top hl hn
  | node hl hr hi hn =>
      have hr' := hr.congr (K := fun _ => False) (fun _ _ _ _ _ => id) hib
        (fun n _ => congrFun hind n) hl
      rw [← hind]
      exact .node hl hr' hi hn

/-- The numbers of a buffer of block `n` are right. -/
def NumsOk (mp : Ump) (s : Growth) (n : Int) (nums : BufNums) : Prop :=
  nums.lblkno = n ∧ (nums.blkno = n ∨ ∃ p, TreePtr mp s n p ∧ nums.blkno = blkptrtodb mp.fs p)

theorem NumsOk.bound {u : BufUse} (h : NumsOk mp s u.req u.nums) : Bound mp s u := by
  refine ⟨fun _ => h.1, fun b hb _ => ?_⟩
  unfold StrategyAddr
  split
  · exact ⟨b, by rwa [h.1], rfl⟩
  · next hne =>
      obtain heq | ⟨p, hp, hnum⟩ := h.2
      · exact absurd (h.1.trans heq.symm) hne
      · rw [hnum, hb.unique hp]

theorem NumsOk.congr (hdb : s'.ip.db = s.ip.db) (hib : s'.ip.ib = s.ip.ib)
    (hind : s'.ind = s.ind) {n : Int} {nums : BufNums} (h : NumsOk mp s n nums) :
    NumsOk mp s' n nums :=
  ⟨h.1, h.2.imp_right fun ⟨p, hp, hnum⟩ => ⟨p, hp.congr hdb hib hind, hnum⟩⟩

theorem cacheOk_iff {cache : Cache} :
    CacheOk mp s cache ↔ (cache.Pairwise fun b b' => b.lblkno ≠ b'.lblkno) ∧
      ∀ b ∈ cache, NumsOk mp s b.lblkno b :=
  ⟨fun h => ⟨h.distinct, fun b hb => ⟨rfl, h.blkno b hb⟩⟩,
    fun h => ⟨h.1, fun b hb => (h.2 b hb).2⟩⟩

theorem CacheOk.filter {cache : Cache} (h : CacheOk mp s cache) (n : Int) :
    CacheOk mp s (cache.filter fun b => b.lblkno ≠ n) :=
  ⟨h.distinct.filter _, fun b hb => h.blkno b (List.mem_of_mem_filter hb)⟩

/-- A block's buffer is put back. -/
theorem CacheOk.cons {cache : Cache} (h : CacheOk mp s cache) {n : Int} {nums : BufNums}
    (hn : NumsOk mp s n nums) :
    CacheOk mp s (nums :: cache.filter fun b => b.lblkno ≠ n) := by
  refine cacheOk_iff.mpr ⟨List.pairwise_cons.mpr ⟨fun b hb => ?_, (h.filter n).distinct⟩, ?_⟩
  · have := (List.mem_filter.mp hb).2
    rw [hn.1]
    exact fun heq => by simp [heq] at this
  · intro b hb
    rcases List.mem_cons.mp hb with rfl | hb
    · rw [hn.1]
      exact hn
    · exact (cacheOk_iff.mp (h.filter n)).2 b hb

theorem CacheOk.putAll {cache : Cache} (h : CacheOk mp s cache) {new : List BufUse}
    (hnew : ∀ u ∈ new, NumsOk mp s u.req u.nums) : CacheOk mp s (cache.putAll new) := by
  induction new with
  | nil => exact h
  | cons u new ih =>
      have hrest := ih fun u hu => hnew u (List.mem_cons_of_mem _ hu)
      show CacheOk mp s ((Cache.putAll cache new).put u)
      unfold Cache.put
      split
      · exact hrest
      · exact hrest.cons (hnew u List.mem_cons_self)

/-- The buffer that `getblk` returns. -/
theorem CacheOk.getblk {cache : Cache} (h : CacheOk mp s cache) (n : Int) :
    NumsOk mp s n (cache.getblk n) := by
  unfold Cache.getblk
  cases hf : cache.find? fun b => b.lblkno = n with
  | none => exact ⟨rfl, .inl rfl⟩
  | some b =>
      have hb : b.lblkno = n := by simpa using List.find?_some hf
      have := (cacheOk_iff.mp h).2 b (List.mem_of_find?_eq_some hf)
      rw [hb] at this
      exact this

/-- `getblk` finds the buffer that was given back. -/
theorem CacheOk.getblk_of_mem {cache : Cache} (h : CacheOk mp s cache) {b : BufNums}
    (hb : b ∈ cache) : cache.getblk b.lblkno = b := by
  have hd := h.distinct
  clear h
  unfold Cache.getblk
  induction cache with
  | nil => cases hb
  | cons a cache ih =>
      obtain ⟨hne, hd⟩ := List.pairwise_cons.mp hd
      rcases List.mem_cons.mp hb with rfl | hb
      · simp
      · rw [List.find?_cons_of_neg (by simpa using hne b hb)]
        exact ih hb hd

/-- What a read of block `n` returns. -/
theorem BufsOk.phys {c : BallocCall} (hx : BufsOk mp x) (hag : Agrees mp x c) (n : Int) :
    NumsOk mp x.file n ⟨n, c.phys n⟩ := by
  have hown := hx.cache.getblk n
  obtain heq | ⟨-, hmap⟩ := hag n
  · refine ⟨rfl, ?_⟩
    simp only [heq]
    exact hown.2
  · exact ⟨rfl, .inr hmap⟩

theorem Own.numsOk {c : BallocCall} {u : BufUse} (hx : BufsOk mp x) (hag : Agrees mp x c)
    (h : Own c u) : NumsOk mp x.file u.req u.nums := by
  refine ⟨h.1, ?_⟩
  obtain hown | hphys := h.2
  · exact .inl hown
  · rw [hphys]
    exact (hx.phys hag u.req).2

theorem BufsOk.mapped {c : BallocCall} (hx : BufsOk mp x) (hag : Agrees mp x c)
    (haddr : ∀ n, AddrOk mp.fs (x.file.ip.db n)) : Mapped mp c x.file.ip.db := by
  intro n hn
  refine ⟨haddr n, fun hne => ?_⟩
  obtain heq | ⟨p, hp, hphys⟩ := (hx.phys hag n).2
  · exact absurd heq hne
  · have hdb : p = x.file.ip.db n := by rw [hp.unique (.data rfl), filePtr, bptr_direct hn]
    rw [← hdb]
    exact hphys

/-- A call that leaves the pointers and the numbers alone. -/
theorem BufsOk.after (hx : BufsOk mp x) (hdb : s'.ip.db = x.file.ip.db)
    (hib : s'.ip.ib = x.file.ip.ib) (hind : s'.ind = x.file.ind) {new : List BufUse}
    (hnew : ∀ u ∈ new, NumsOk mp x.file u.req u.nums) : BufsOk mp (x.after s' new) := by
  have hsame : ∀ n nums, NumsOk mp x.file n nums → NumsOk mp s' n nums :=
    fun n nums h => h.congr hdb hib hind
  refine ⟨cacheOk_iff.mpr ?_, fun p hp => ?_⟩
  · obtain ⟨h1, h2⟩ := cacheOk_iff.mp (hx.cache.putAll hnew)
    exact ⟨h1, fun b hb => hsame _ _ (h2 b hb)⟩
  · rcases List.mem_append.mp hp with hp | hp
    · obtain ⟨u, hu, rfl⟩ := List.mem_map.mp hp
      have hnums := hnew u hu
      show Bound mp (if u.act = .read then x.file else s') u
      split
      · exact hnums.bound
      · exact (hsame _ _ hnums).bound
    · exact hx.uses p hp

theorem BufStep.bufsOk (h : BufStep mp (KeepsNumbers mp) x y) (hx : BufsOk mp x) :
    BufsOk mp y := by
  cases h with
  | @balloc c startoffset size r s' new hP hag heq hnew =>
      have hk := ffsBalloc_kept (hx.mapped hag hP.2) hP.1 heq
      obtain ⟨new', hb, hown⟩ := hk.bufs
      obtain rfl : new' = new := List.append_cancel_right (hb.symm.trans hnew)
      exact hx.after hk.db hk.ib hk.ind fun u hu => (hown u hu).numsOk hx hag
  | @realloccg c lbprev osize nsize r s' new hP hlbn hag heq hnew =>
      obtain ⟨haddr, hmapped⟩ := hx.mapped hag hP.2 _ hlbn
      obtain ⟨hk, hok⟩ := ffsRealloccg_kept hP.1 haddr hmapped heq
      obtain ⟨new', hb, hown⟩ := hk.bufs
      obtain rfl : new' = new := List.append_cancel_right (hb.symm.trans hnew)
      refine hx.after hk.db hk.ib hk.ind fun u hu => ?_
      cases r with
      | error e => exact (hown u hu).numsOk hx hag
      | panic => exact (hown u hu).numsOk hx hag
      | ok bp =>
          rcases List.mem_cons.mp hu with rfl | hu
          · rw [(hok bp rfl).1]
            exact hx.phys hag lbprev
          · exact (hown u hu).numsOk hx hag
  | @readindir valid lbn daddr hP hptr =>
      obtain rfl : valid = true := hP
      refine hx.after rfl rfl rfl fun u hu => ?_
      obtain rfl := List.mem_singleton.mp hu
      exact hx.cache.getblk lbn
  | map hmem hptr => exact ⟨hx.cache.cons ⟨rfl, .inr ⟨_, hptr, rfl⟩⟩, hx.uses⟩
  | drop => exact ⟨hx.cache.filter _, hx.uses⟩

/-- In every run of calls that leave the logical numbers alone, every buffer
stays bound to its own block: it is given back under the number it was obtained
by, the next `getblk` finds it, and it is transferred at its block's address. -/
theorem bufsOk_of_run (mp : Ump) (x y : FileBufs) (hx : BufsOk mp x)
    (hrun : ReflTransGen (BufStep mp (KeepsNumbers mp)) x y) :
    (∀ p ∈ y.uses, Bound mp p.1 p.2) ∧ ∀ b ∈ y.cache, y.cache.getblk b.lblkno = b := by
  have hy : BufsOk mp y := invariant_of_run (BufsOk mp) (fun h hstep => hstep.bufsOk h) hx hrun
  exact ⟨hy.uses, fun b hb => hy.cache.getblk_of_mem hb⟩

end Run

/-- A file that has not been used yet. -/
def idle (s : Growth) : FileBufs := ⟨s, [], []⟩

theorem bufsOk_idle (mp : Ump) (s : Growth) : BufsOk mp (idle s) :=
  ⟨⟨List.Pairwise.nil, by simp [idle]⟩, by simp [idle]⟩

/-- A first call on a file none of whose buffers is mapped to the device. -/
theorem balloc_step (mp : Ump) {P : FileBufs → BufOp → Prop} (s : Growth) (c : BallocCall)
    (startoffset : Int) (size : Nat) (hs : s.bufs = []) (hphys : ∀ n, c.phys n = n)
    (hP : P (idle s) (.balloc c startoffset size)) :
    BufStep mp P (idle s) ((idle s).after (ffsBalloc mp c s startoffset size).2
      (ffsBalloc mp c s startoffset size).2.bufs) := by
  refine .balloc hP (fun n => .inl (hphys n)) (eq_mk_snd rfl) ?_
  show _ = _ ++ s.bufs
  rw [hs, List.append_nil]

/-- A file with block 12, behind the first indirect block. -/
def indirectFile : Growth :=
  { sparseFile 212992 with
    ip := { (sparseFile 212992).ip with ib := fun i => if i = 0 then 4 else 0 }
    ind := fun n i => if n = -12 ∧ i = 0 then 6 else 0 }

/-- A call that reads the block it asks for. -/
def readCall : BallocCall := { smoothCall with clrbuf := true, valid := fun _ => false }

theorem keepsNumbers_readCall :
    KeepsNumbers tinyUmp (idle indirectFile) (.balloc readCall 196608 16384) := by
  have hlbn : (tinyUmp.fs.lblkno 196608).toNat = 12 := by decide
  have hpath : ufsGetlbns tinyUmp.fs.nindir (12 : Nat) = .ok [⟨-12, 0⟩, ⟨-12, 0⟩] := by decide +kernel
  simp only [KeepsNumbers, BallocKeeps, hlbn]
  refine ⟨⟨fun h => absurd h (by decide), ?_⟩, fun _ => addrOk_zero _⟩
  simp only [BlockKeeps, hpath]
  rw [if_neg (by decide), if_neg (by decide), WalkKeeps]
  refine fun _ _ => .inr ?_
  rw [if_neg (by decide)]
  exact ⟨rfl, fun _ => by decide⟩

/-- Block 12 is read and returned. -/
theorem bufsOk_of_run_read :
    let s' := (ffsBalloc tinyUmp readCall indirectFile 196608 16384).2
    s'.bufs.length = 4 ∧
      ∀ p ∈ ((idle indirectFile).after s' s'.bufs).uses, Bound tinyUmp p.1 p.2 :=
  ⟨by decide +kernel, (bufsOk_of_run tinyUmp _ _ (bufsOk_idle _ _) (ReflTransGen.single
    (balloc_step _ _ _ _ _ rfl (fun _ => rfl) keepsNumbers_readCall))).1⟩

/-- The first block of an empty file is returned under number 96, the device
address of its fragment 6. -/
theorem not_bufsOk_of_run_new :
    BufsOk tinyUmp (idle (sparseFile 0)) ∧
      ∃ y, ReflTransGen (BufStep tinyUmp fun _ _ => True) (idle (sparseFile 0)) y ∧
        ¬ ∀ p ∈ y.uses, Bound tinyUmp p.1 p.2 := by
  have hbufs : (ffsBalloc tinyUmp smoothCall (sparseFile 0) 0 16384).2.bufs =
      [⟨0, ⟨96, 0⟩, .ret⟩] := by
    decide +kernel
  have hstep := balloc_step tinyUmp (P := fun _ _ => True) (sparseFile 0) smoothCall 0 16384 rfl
    (fun _ => rfl) trivial
  rw [hbufs] at hstep
  refine ⟨bufsOk_idle _ _, _, ReflTransGen.single hstep, fun h => ?_⟩
  have hret := (h _ List.mem_cons_self).lblkno (by decide)
  exact absurd hret (by decide)

end UfsX.Proofs
