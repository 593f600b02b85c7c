import Mathlib.Data.List.Nodup
import UfsX.Proofs.Superblock
import UfsX.Ffs.Mountfs

/-!
# `UfsX.Proofs.Mountfs`: what a mount leaves behind

`ffsSbget_spec` says what `ffs_sbget` holds when it returns: the superblock and the two
parts of the summary, or nothing. From there the steps of `ffs_mountfs` are counted, and
`ffsMountfs_meets` compares them with what is asked for (`Meets`). No mount that succeeds
meets it, since `um_devbsize` stays 0; `furnished_of_ret` says what it has instead (`Crippled`).
-/

set_option autoImplicit false

namespace UfsX.Proofs.Mountfs

open UfsX.Lib (Mem Heap AgreeOff Span)
open UfsX.Compat (Bsdmount)
open UfsX.Ffs hiding ffsSbget
open UfsX.Ffs.Mountfs
open UfsX.Proofs.Superblock (sampleSb)

variable {τ : Type*} {q : Request}

/-! ### What is asked for -/

/-- The fields of the new mount that others rely on. -/
structure Furnished (q : Request) (s : State τ) (ump : Ufsmount τ) : Prop where
  mountp : ump.mountp = true
  devvp : ump.devvp = true
  dev : ump.dev = some q.specrdev
  fsprivate : s.fsprivate = some .ump
  /-- `um_fs` is the superblock, and what is copied from it agrees. -/
  fs : ∃ loc fs, s.fs = some (loc, fs) ∧ ump.fs = some (.sb loc) ∧ ump.nindir = fs.nindir ∧
    ump.bptrtodb = fs.fsbtodbShift ∧ ump.seqinc = fs.frag ∧ (ump.fstype = .ufs1 ↔ fs.magic = FS_UFS1_MAGIC)
  balloc : ump.balloc = some ump.fstype
  ops : ump.ops = true
  checkBlkno : ump.checkBlkno = q.untrusted
  lock : ump.lock = true
  ihashLock : ump.ihashLock = true
  criticals : ump.vgetCritical = true ∧ ump.vallocCritical = true
  trim : ump.candelete = true → ump.trimTq = true ∧ ump.trimhash = true
  fsfailTask : ump.fsfailTask = some s.fsid

/-- The fields behind divisions, locks and counters. -/
structure Sound (ump : Ufsmount τ) : Prop where
  devbsize : ump.devbsize ≠ 0
  mntLock : ump.mntLock = true
  mntRef : 0 < ump.compat.mntRef
  writeopcount : 0 ≤ ump.compat.writeopcount

/-- No later operation divides by zero, takes a null lock or panics on the counters. -/
structure Serves (q : Request) (ump : Ufsmount τ) : Prop where
  sbupdate : ∀ fs csp now dev, ffsSbupdate (ump.sb q.bigcgs) fs csp now dev ≠ none
  delta : ∀ size, delta ump size ≠ none
  opEnter : vfsOpEnter ump ≠ none

/-- Nothing is left of the superblock, the summary and the `ufsmount`. -/
structure Cleaned (s : State τ) : Prop where
  sb : ∀ loc, s.heap.Settled (.sb loc)
  si : s.heap.Settled .si
  csp : s.heap.Settled .csp
  ump : s.heap.Settled .ump
  fsprivate : ∀ x, s.fsprivate = some x → x ∉ s.heap.frees

def Meets (q : Request) : Outcome τ → Prop
  | .ret error s =>
      if error = 0 then ∃ ump, s.ump = some ump ∧ Furnished q s ump ∧ Sound ump ∧ Serves q ump else Cleaned s
  | .panic => False

/-! ### What the fields are good for -/

/-- Without `um_devbsize` there is no superblock update. -/
theorem ffsSbupdate_zero {ump : SbMount} (h : ump.devbsize = 0) (fs : Sb) (csp : Mem) (now : Nat) (dev : Mem) :
    ffsSbupdate ump fs csp now dev = none := by
  simp only [ffsSbupdate, SbMount.btodb, if_pos h, Option.bind_eq_bind, Option.bind_none]

/-! ### The memory of `ffs_sbget` -/

/-- Between two attempts of the search. `locs` are the places not tried yet. -/
structure Searched (locs : List Nat) (h : Heap Obj) : Prop where
  sb : ∀ loc, h.Settled (.sb loc)
  fresh : ∀ loc ∈ locs, h.counts (.sb loc) = (0, 0)
  rest : ∀ x, (∀ loc, x ≠ .sb loc) → h.counts x = (0, 0)

/-- The search has found a superblock. -/
structure Found (loc : Nat) (h : Heap Obj) : Prop where
  here : h.counts (.sb loc) = (1, 0)
  others : ∀ l, l ≠ loc → h.Settled (.sb l)
  rest : ∀ x, (∀ loc, x ≠ .sb loc) → h.counts x = (0, 0)

/-- The objects of the mount that are not from `ffs_sbget`. -/
def mountObjs : List Obj :=
  [.ump, .compat, .mntLock, .ihashLock, .vgetCritical, .vallocCritical, .umLock, .trimTq, .trimhash]

/-- With the summary table; `is` are the pieces not read yet. -/
structure Loaded (loc : Nat) (is : List Nat) (h : Heap Obj) : Prop where
  here : h.counts (.sb loc) = (1, 0)
  others : ∀ l, l ≠ loc → h.Settled (.sb l)
  si : h.counts .si = (1, 0)
  csp : h.counts .csp = (1, 0)
  buf : ∀ i, h.Settled (.buf i)
  fresh : ∀ i ∈ is, h.counts (.buf i) = (0, 0)
  rest : ∀ x ∈ mountObjs, h.counts x = (0, 0)

/-- What the search, the loop over the summary table, and `ffs_sbget` leave. -/
def SearchPost : ReadResult (Nat × Sb) × Heap Obj → Prop
  | (.error e, h) => e ≠ 0 ∧ Searched [] h
  | (.panic, _) => True
  | (.ignored (loc, _), h) => Found loc h
  | (.ok (loc, _), h) => Found loc h

def PiecesPost (loc : Nat) : ReadResult Mem × Heap Obj → Prop
  | (.error e, h) => e ≠ 0 ∧ ∀ x, h.Settled x
  | (.panic, _) => False
  | (.ignored _, _) => False
  | (.ok _, h) => Loaded loc [] h

def SbgetPost : ReadResult Got × Heap Obj → Prop
  | (.error e, h) => e ≠ 0 ∧ ∀ x, h.Settled x
  | (.panic, _) => True
  | (.ignored _, _) => False
  | (.ok g, h) => Loaded g.loc [] h

theorem Searched.alloc {loc : Nat} {locs : List Nat} {h : Heap Obj} (hs : Searched (loc :: locs) h) :
    Found loc (h.alloc (.sb loc)) where
  here := by rw [Heap.counts_alloc, hs.fresh loc List.mem_cons_self, if_pos rfl]
  others l hl := by
    have hne : Obj.sb loc ≠ .sb l := fun he => hl (Obj.sb.inj he).symm
    exact (hs.sb l).alloc_of_ne hne
  rest x hx := by
    rw [Heap.counts_alloc_of_ne (hx loc).symm]
    exact hs.rest x hx

theorem Searched.attempt {loc : Nat} {locs : List Nat} {h : Heap Obj} (hs : Searched (loc :: locs) h)
    (hnodup : (loc :: locs).Nodup) : Searched locs ((h.alloc (.sb loc)).free (.sb loc)) where
  sb l := by
    by_cases hl : l = loc
    · subst hl
      exact Heap.settled_free hs.alloc.here
    · have hne : Obj.sb loc ≠ .sb l := fun he => hl (Obj.sb.inj he).symm
      exact (hs.alloc.others l hl).free_of_ne hne
  fresh l hl := by
    have hne : Obj.sb loc ≠ .sb l := by
      intro he
      obtain rfl := Obj.sb.inj he
      exact (List.nodup_cons.mp hnodup).1 hl
    rw [Heap.counts_free_of_ne hne, Heap.counts_alloc_of_ne hne]
    exact hs.fresh l (List.mem_cons_of_mem _ hl)
  rest x hx := by
    rw [Heap.counts_free_of_ne (hx loc).symm, Heap.counts_alloc_of_ne (hx loc).symm]
    exact hs.rest x hx

theorem readsuper_error [SysParam] {host : Host} {dev : Mem} {loc e : Nat} {isaltsblk chkhash : Bool}
    (h : readsuper host dev loc isaltsblk chkhash = .error e) : e ≠ 0 := by
  unfold readsuper at h
  dsimp only at h
  split at h
  · cases h
    decide
  · split at h
    · split at h
      · split at h
        · cases h
          decide
        · cases h
      · cases h
    · split at h
      · cases h
        decide
      · cases h

theorem search_spec [SysParam] (locs : List Nat) : ∀ {h : Heap Obj}, Searched locs h → locs.Nodup →
    SearchPost (search q locs h) := by
  induction locs with
  | nil => exact fun hs _ => ⟨by decide, hs⟩
  | cons loc locs ih =>
      intro h hs hnodup
      have hattempt := hs.attempt hnodup
      rw [search]
      split
      case h_1 e he =>
        have hne : e ≠ 0 := by
          by_cases hr : q.readErr loc ≠ 0
          · rw [if_pos hr] at he
            cases he
            exact hr
          · rw [if_neg hr] at he
            exact readsuper_error he
        dsimp only
        split
        · exact ih hattempt hnodup.of_cons
        · exact ⟨hne, hattempt.sb, fun _ hmem => absurd hmem List.not_mem_nil, hattempt.rest⟩
      case h_2 => trivial
      case h_3 => exact hs.alloc
      case h_4 => exact hs.alloc

theorem Found.summary {loc : Nat} {h : Heap Obj} (hf : Found loc h) (is : List Nat) :
    Loaded loc is ((h.alloc .si).alloc .csp) where
  here := by simpa using hf.here
  others l hl := by simpa [Heap.Settled] using hf.others l hl
  si := by simp [hf.rest .si (by simp)]
  csp := by simp [hf.rest .csp (by simp)]
  buf i := by
    left
    simpa using hf.rest (.buf i) (by simp)
  fresh i _ := by simpa using hf.rest (.buf i) (by simp)
  rest x hx := by
    rw [Heap.counts_alloc_of_ne, Heap.counts_alloc_of_ne]
    · exact hf.rest x (by rintro loc rfl; simp [mountObjs] at hx)
    · rintro rfl
      simp [mountObjs] at hx
    · rintro rfl
      simp [mountObjs] at hx

/-- The loop holds the superblock and the two parts of the summary; a read that fails
frees them. -/
theorem readPieces_spec {loc : Nat} {fs : Sb} (is : List Nat) : ∀ {space : Nat} {csp : Mem} {h : Heap Obj},
    Loaded loc is h → is.Nodup → PiecesPost loc (readPieces q loc fs is space csp h) := by
  induction is with
  | nil => exact fun hl _ => hl
  | cons i is ih =>
      intro space csp h hl hnodup
      rw [readPieces]
      dsimp only
      by_cases hr : q.readErr (fs.pieceLoc i) ≠ 0
      · rw [if_pos hr]
        refine ⟨hr, fun x => ?_⟩
        -- the exit frees the superblock, the summary and the buffer of piece `i`
        have hi := hl.fresh i List.mem_cons_self
        cases x with
        | sb l =>
            by_cases hloc : l = loc
            · subst hloc
              simp [Heap.Settled, hl.here]
            · simpa [Heap.Settled, Ne.symm hloc] using hl.others l hloc
        | buf j =>
            by_cases hj : i = j
            · subst hj
              simp [Heap.Settled, hi]
            · simpa [Heap.Settled, hj] using hl.buf j
        | si => simp [Heap.Settled, hl.si]
        | csp => simp [Heap.Settled, hl.csp]
        | _ =>
            left
            simpa using hl.rest _ (by decide)
      · rw [if_neg hr]
        -- piece `i` is allocated and freed again
        refine ih ?_ hnodup.of_cons
        exact {
          here := by simpa using hl.here
          others := fun l hloc => by simpa [Heap.Settled] using hl.others l hloc
          si := by simpa using hl.si
          csp := by simpa using hl.csp
          buf := fun j => by
            by_cases hj : i = j
            · subst hj
              simp [Heap.Settled, hl.fresh i List.mem_cons_self]
            · simpa [Heap.Settled, hj] using hl.buf j
          fresh := fun j hmem => by
            have hne : i ≠ j := by
              rintro rfl
              exact (List.nodup_cons.mp hnodup).1 hmem
            simpa [hne] using hl.fresh j (List.mem_cons_of_mem _ hmem)
          rest := fun x hx => by
            have hne : Obj.buf i ≠ x := by
              rintro rfl
              simp [mountObjs] at hx
            rw [Heap.counts_free_of_ne hne, Heap.counts_alloc_of_ne hne]
            exact hl.rest x hx }

theorem nodup_pieces (fs : Sb) : fs.pieces.Nodup := by
  unfold Sb.pieces
  dsimp only
  rcases Nat.eq_zero_or_pos fs.frag with hz | hpos
  · rw [hz, Nat.div_zero]
    exact List.nodup_nil
  · have hinj : Function.Injective fun i : Nat => i * fs.frag :=
      fun a b hab => Nat.eq_of_mul_eq_mul_right hpos hab
    exact (List.nodup_map_iff hinj).mpr List.nodup_range

theorem readSummary_spec {loc : Nat} {h : Heap Obj} (fs : Sb) (hf : Found loc h) :
    SbgetPost (readSummary q loc fs h) := by
  have hspec : PiecesPost loc (readPieces q loc fs fs.pieces 0 (fun _ => 0) ((h.alloc .si).alloc .csp)) :=
    readPieces_spec fs.pieces (hf.summary fs.pieces) (nodup_pieces fs)
  unfold readSummary
  dsimp only
  generalize readPieces q loc fs fs.pieces 0 (fun _ => 0) ((h.alloc .si).alloc .csp) = r at hspec ⊢
  rcases r with ⟨_ | _ | _ | _, h'⟩
  case error => exact hspec
  case panic => exact hspec.elim
  case ignored => exact hspec.elim
  case ok => exact hspec

/-- `ffs_sbget` holds the superblock and its summary, or it has freed them. -/
theorem ffsSbget_spec [SysParam] (q : Request) : SbgetPost (ffsSbget q .empty) := by
  have hstart : Searched sblockTry (.empty : Heap Obj) :=
    ⟨fun _ => .inl rfl, fun _ _ => rfl, fun _ _ => rfl⟩
  have hsearch := search_spec (q := q) sblockTry hstart (by decide)
  unfold ffsSbget
  generalize search q sblockTry .empty = r at hsearch ⊢
  rcases r with ⟨_ | _ | p | p, h⟩
  case error =>
    refine ⟨hsearch.1, fun x => ?_⟩
    cases x with
    | sb loc => exact hsearch.2.sb loc
    | _ => exact .inl (hsearch.2.rest _ (by simp))
  case panic => trivial
  case ignored => exact readSummary_spec p.2 hsearch
  case ok => exact readSummary_spec p.2 hsearch

/-! ### Reads that work -/

/-- A return of 0 either way. -/
def collapse {α : Type} : ReadResult α → ReadResult α
  | .ignored a => .ok a
  | r => r

theorem search_eq [SysParam] (hread : ∀ loc, q.readErr loc = 0) (locs : List Nat) : ∀ h : Heap Obj,
    (search q locs h).1.map Prod.snd = searchSuper .kernel q.dev (!q.rootfs) locs := by
  induction locs with
  | nil => exact fun _ => rfl
  | cons loc locs ih =>
      intro h
      simp only [search, searchSuper, hread, ne_eq, not_true_eq_false, if_false]
      cases readsuper .kernel q.dev loc false (!q.rootfs) with
      | error e =>
          dsimp only
          split
          · exact ih _
          · rfl
      | panic => rfl
      | ignored fs => rfl
      | ok fs => rfl

theorem readPieces_eq (hread : ∀ loc, q.readErr loc = 0) (loc : Nat) (fs : Sb) (is : List Nat) :
    ∀ (space : Nat) (csp : Mem) (h : Heap Obj),
      (readPieces q loc fs is space csp h).1 = .ok (getPieces .kernel q.dev fs is space csp) := by
  induction is with
  | nil => exact fun _ _ _ => rfl
  | cons i is ih =>
      intro space csp h
      simp only [readPieces, getPieces, hread, ne_eq, not_true_eq_false, if_false]
      exact ih _ _ _

/-- Where every read works, the superblock and the summary are those of `ffs_sbget` alone. -/
theorem ffsSbget_eq [SysParam] (hread : ∀ loc, q.readErr loc = 0) (h : Heap Obj) :
    (ffsSbget q h).1.map (fun g => (g.fs, g.csp))
      = collapse (Ffs.ffsSbget .kernel q.dev (if q.rootfs then STDSB_NOHASHFAIL else STDSB)) := by
  have hneg : ¬ 0 ≤ if q.rootfs then STDSB_NOHASHFAIL else STDSB := by
    cases q.rootfs <;> decide
  have hflag : decide ((if q.rootfs then STDSB_NOHASHFAIL else STDSB) ≠ STDSB_NOHASHFAIL) = !q.rootfs := by
    cases q.rootfs <;> decide
  have hsummary : ∀ (loc : Nat) (fs : Sb) (h : Heap Obj), (readSummary q loc fs h).1.map (fun g => (g.fs, g.csp))
      = .ok (fs, getPieces .kernel q.dev fs fs.pieces 0 fun _ => 0) := by
    intro loc fs h
    simp only [readSummary, readPieces_eq hread, ReadResult.map]
  have hsearch := search_eq hread sblockTry h
  rw [Ffs.ffsSbget, if_neg hneg, hflag, ← hsearch, ffsSbget]
  generalize search q sblockTry h = r
  rcases r with ⟨_ | _ | p | p, h'⟩
  case error => rfl
  case panic => rfl
  case ignored => exact hsummary p.1 p.2 h'
  case ok => exact hsummary p.1 p.2 h'

/-! ### The new mount -/

theorem agreeOff_setFsmnt (fs : Sb) (name : List UInt8) : AgreeOff [(212, MAXMNTLEN)] (fs.setFsmnt name) fs := by
  intro x hx
  have hr : x < 212 ∨ 212 + MAXMNTLEN ≤ x := hx _ List.mem_cons_self
  have hlen : min name.length (MAXMNTLEN - 1) ≤ MAXMNTLEN := by unfold MAXMNTLEN; omega
  unfold Sb.setFsmnt Mem.copy Mem.zero
  rw [if_neg (by omega), if_neg (by omega)]

/-- The superblock once it is in the mount. -/
def mounted (q : Request) (fs : Sb) : Sb :=
  ((ffsOldfscompatRead q.bigcgs 0 fs fs.sblockloc).1.setRonly q.rdonly).setFsmnt q.mntonname

/-- What is allocated with the `ufsmount` in any case. -/
def built : List Obj := [.ump, .compat, .ihashLock, .vgetCritical, .vallocCritical, .umLock]

/-- What `ffs_mountfs` has made when the read-write mount parts from the other. -/
structure Built (q : Request) (g : Got) (fs : Sb) (b : State τ × Sb × Ufsmount τ) : Prop where
  sb : b.2.1 = mounted q fs
  fs : b.1.fs = some (g.loc, b.2.1)
  csp : b.1.csp = g.csp
  ump : b.1.ump = some b.2.2
  fsprivate : b.1.fsprivate = some .ump
  here : b.1.heap.counts (.sb g.loc) = (1, 0)
  others : ∀ l, l ≠ g.loc → b.1.heap.Settled (.sb l)
  buf : ∀ i, b.1.heap.Settled (.buf i)
  held : ∀ x ∈ .si :: .csp :: built, b.1.heap.counts x = (1, 0)
  mntLock : b.1.heap.counts .mntLock = (0, 0)
  made : b.2.2.ihashLock = true ∧ b.2.2.vgetCritical = true ∧ b.2.2.vallocCritical = true
  missing : b.2.2.devbsize = 0 ∧ b.2.2.mntLock = false ∧ b.2.2.compat = newBsdmount
  furnished : Furnished q { b.1 with ump := some { b.2.2 with fsfailTask := some b.1.fsid } }
    { b.2.2 with fsfailTask := some b.1.fsid }

theorem build_spec {g : Got} {h : Heap Obj} (fs : Sb) (hl : Loaded g.loc [] h) :
    Built q g fs (build q g fs h : State τ × Sb × Ufsmount τ) := by
  have hrest : ∀ x ∈ mountObjs, h.counts x = (0, 0) := hl.rest
  simp only [mountObjs, List.forall_mem_cons] at hrest
  obtain ⟨hump, hcompat, hmnt, hihash, hvget, hvalloc, hlock, -, -, -⟩ := hrest
  generalize hfs₁ : (ffsOldfscompatRead q.bigcgs 0 fs fs.sblockloc).1.setRonly q.rdonly = fs₁
  -- `fs_fsmnt` is set after the mount has read what it needs
  have hagree := agreeOff_setFsmnt fs₁ q.mntonname
  have hnindir : fs₁.nindir = (fs₁.setFsmnt q.mntonname).nindir := (hagree.read32 (o := 116) (by decide)).symm
  have hshift : fs₁.fsbtodbShift = (fs₁.setFsmnt q.mntonname).fsbtodbShift :=
    (hagree.read32 (o := 100) (by decide)).symm
  have hfrag : fs₁.frag = (fs₁.setFsmnt q.mntonname).frag := (hagree.read32 (o := 56) (by decide)).symm
  have hmagic : (fs₁.setFsmnt q.mntonname).magic = fs₁.magic := hagree.read32 (o := 1372) (by decide)
  have hfstype : (if fs₁.magic = FS_UFS1_MAGIC then Fstype.ufs1 else .ufs2) = .ufs1
      ↔ (fs₁.setFsmnt q.mntonname).magic = FS_UFS1_MAGIC := by
    rw [hmagic]
    split <;> simp [*]
  unfold build
  dsimp only
  rw [hfs₁]
  refine {
    sb := congrArg (fun fs => Sb.setFsmnt fs q.mntonname) hfs₁.symm
    fs := rfl
    csp := rfl
    ump := rfl
    fsprivate := rfl
    here := ?_
    others := fun l hloc => ?_
    buf := fun i => ?_
    held := ?_
    mntLock := ?_
    made := ⟨rfl, rfl, rfl⟩
    missing := ⟨rfl, rfl, rfl⟩
    furnished := ?_ }
  · split <;> simp [hl.here]
  · split <;> simpa [Heap.Settled] using hl.others l hloc
  · split <;> simpa [Heap.Settled] using hl.buf i
  · simp only [built, List.forall_mem_cons]
    split <;> simp [hl.si, hl.csp, hump, hcompat, hihash, hvget, hvalloc, hlock]
  · split <;> simp [hmnt]
  · exact {
      mountp := rfl
      devvp := rfl
      dev := rfl
      fsprivate := rfl
      fs := ⟨g.loc, _, rfl, rfl, hnindir, hshift, hfrag, hfstype⟩
      balloc := rfl
      ops := rfl
      checkBlkno := rfl
      lock := rfl
      ihashLock := rfl
      criticals := ⟨rfl, rfl⟩
      trim := fun hc => ⟨hc, hc⟩
      fsfailTask := rfl }

/-! ### The exits -/

variable {s : State τ} {error loc : Nat} {fs : Sb}

theorem meets_out_nothing (he : error ≠ 0) (hfs : s.fs = none) (hump : s.ump = none) (hprivate : s.fsprivate = none)
    (hs : ∀ x, s.heap.Settled x) : Meets q (out error s) := by
  simp only [out, hfs, hump, Meets, if_neg he]
  exact ⟨fun loc => hs (.sb loc), hs .si, hs .csp, hs .ump, fun x hx => by rw [hprivate] at hx; cases hx⟩

theorem meets_out_sb (he : error ≠ 0) (hfs : s.fs = some (loc, fs)) (hump : s.ump = none) (hprivate : s.fsprivate = none)
    (hl : Loaded loc [] s.heap) : Meets q (out error s) := by
  simp only [out, hfs, hump, Meets, if_neg he]
  refine ⟨fun l => ?_, ?_, ?_, ?_, fun x hx => by rw [hprivate] at hx; cases hx⟩
  · by_cases hloc : l = loc
    · subst hloc
      simp [Heap.Settled, hl.here]
    · simpa [Heap.Settled, Ne.symm hloc] using hl.others l hloc
  · simp [Heap.Settled, hl.si]
  · simp [Heap.Settled, hl.csp]
  · simp [Heap.Settled, hl.rest .ump (by decide)]

/-- With the `ufsmount`: the exit after `softdep_mount`. -/
theorem meets_out_ump {g : Got} {fs₁ : Sb} {b : State τ × Sb × Ufsmount τ} (he : error ≠ 0) (hb : Built q g fs₁ b)
    (hfs : s.fs = some (g.loc, fs)) (hump : s.ump = b.1.ump) (hheap : s.heap = b.1.heap) : Meets q (out error s) := by
  have hheld := hb.held
  simp only [built, List.forall_mem_cons] at hheld
  obtain ⟨hsi, hcsp, humpHeld, -⟩ := hheld
  obtain ⟨hihash, hvget, hvalloc⟩ := hb.made
  obtain ⟨-, hmnt, -⟩ := hb.missing
  -- the three locks that were made are destroyed, the fourth never was
  rw [hb.ump] at hump
  simp only [out, hfs, hump, hheap, hihash, hvget, hvalloc, hmnt, Meets, if_neg he, if_true, Bool.false_eq_true,
    if_false]
  refine ⟨fun l => ?_, ?_, ?_, ?_, nofun⟩
  · by_cases hloc : l = g.loc
    · subst hloc
      simp [Heap.Settled, hb.here]
    · simpa [Heap.Settled, Ne.symm hloc] using hb.others l hloc
  · simp [Heap.Settled, hsi]
  · simp [Heap.Settled, hcsp]
  · simp [Heap.Settled, humpHeld]

/-! ### When it holds -/

/-- With this superblock the mount ends at `out`. -/
def RefusedSb (q : Request) (fs : Sb) : Prop :=
  denied q (markUnclean fs) = true ∨
    gjournal (clearPending (markUnclean fs)) = false ∧ q.rdonly = false ∧
      Sb.flags (mounted q (clearPending (markUnclean fs))) &&& FS_DOSOFTDEP ≠ 0 ∧ q.softdepMount ≠ 0

/-- The mount ends at `out`. -/
def Refused [SysParam] (q : Request) : Prop :=
  0 < q.devblocksize ∧ (SBLOCKSIZE % q.devblocksize ≠ 0 ∨
    match (ffsSbget q .empty).1 with
    | .error _ => True
    | .panic => False
    | .ignored g => RefusedSb q g.fs
    | .ok g => RefusedSb q g.fs)

/-- A mount that returns 0 lacks `um_devbsize`. -/
theorem not_meets_finish {g : Got} {b : State τ × Sb × Ufsmount τ} (hb : Built q g fs b) :
    ¬ Meets q (finish s b.2.2) := by
  rintro ⟨ump, hump, -, hsound, -⟩
  obtain rfl : { b.2.2 with fsfailTask := some s.fsid } = ump := Option.some.inj hump
  exact hsound.devbsize hb.missing.1

theorem flags_setMtime (fs : Sb) (now : Nat) : (fs.setMtime now).flags = fs.flags :=
  (Mem.agreeOff_write64 now (List.mem_singleton_self (1208, 8))).read32 (o := 1312) (by decide)

/-- From the superblock on. -/
theorem mountSb_meets {g : Got} {h : Heap Obj} (hl : Loaded g.loc [] h) :
    Meets q (mountSb q g h : Outcome τ) ↔ RefusedSb q g.fs := by
  unfold mountSb RefusedSb
  dsimp only
  by_cases hdenied : denied q (markUnclean g.fs) = true
  · rw [if_pos hdenied]
    -- no `ufsmount` yet: `out` frees the superblock and the summary
    exact iff_of_true (meets_out_sb (by decide) rfl rfl rfl hl) (.inl hdenied)
  rw [if_neg hdenied]
  generalize clearPending (markUnclean g.fs) = fs₁
  by_cases hgj : gjournal fs₁ = true
  · rw [if_pos hgj]
    refine iff_of_false (fun hm => ?_) (by simp [hdenied, hgj])
    -- the summary is still there
    have hsi : h.Settled .si := Cleaned.si hm
    simp [Heap.Settled, hl.si] at hsi
  rw [if_neg hgj]
  have hb : Built q g fs₁ (build q g fs₁ h : State τ × Sb × Ufsmount τ) := build_spec fs₁ hl
  generalize (build q g fs₁ h : State τ × Sb × Ufsmount τ) = b at hb
  obtain ⟨s, fs, ump⟩ := b
  dsimp only
  by_cases hro : q.rdonly = true
  · rw [if_pos hro]
    exact iff_of_false (not_meets_finish hb) (by simp [hdenied, hro])
  rw [if_neg hro, flags_setMtime]
  have hsb : fs = mounted q fs₁ := hb.sb
  by_cases hsoft : fs.flags &&& FS_DOSOFTDEP ≠ 0 ∧ q.softdepMount ≠ 0
  · rw [if_pos hsoft]
    refine iff_of_true (meets_out_ump hsoft.2 hb rfl rfl rfl) (.inr ⟨by simpa using hgj, by simpa using hro, ?_⟩)
    rwa [← hsb]
  · rw [if_neg hsoft, ffsSbupdate_zero hb.missing.1]
    refine iff_of_false id ?_
    rintro (hd | ⟨-, -, hs⟩)
    · exact hdenied hd
    · exact hsoft (hsb ▸ hs)

/-- Mounting establishes what others rely on, or leaves nothing behind, exactly when the mount
ends at `out`. -/
theorem ffsMountfs_meets [SysParam] (q : Request) : Meets q (ffsMountfs q : Outcome τ) ↔ Refused q := by
  have hspec := ffsSbget_spec q
  unfold ffsMountfs Refused
  by_cases hzero : q.devblocksize = 0
  · rw [if_pos hzero]
    exact iff_of_false id (by omega)
  rw [if_neg hzero]
  have hpos : 0 < q.devblocksize := by omega
  by_cases hmod : SBLOCKSIZE % q.devblocksize ≠ 0
  · rw [if_pos hmod]
    exact iff_of_true (meets_out_nothing (by decide) rfl rfl rfl fun _ => .inl rfl) ⟨hpos, .inl hmod⟩
  rw [if_neg hmod]
  simp only [hpos, true_and, hmod, false_or]
  generalize ffsSbget q .empty = r at hspec
  rcases r with ⟨_ | _ | g | g, h⟩
  case error => exact iff_of_true (meets_out_nothing hspec.1 rfl rfl rfl hspec.2) trivial
  case panic => exact Iff.rfl
  case ignored => exact hspec.elim
  case ok => exact mountSb_meets hspec

/-! ### A mount that succeeds -/

theorem out_ne (he : error ≠ 0) (s s' : State τ) : out error s ≠ .ret 0 s' := by
  intro h
  unfold out at h
  dsimp only at h
  split at h
  all_goals exact he (Outcome.ret.inj h).1

/-- What a mount that returns 0 has, and what it lacks: its first `vfs_op_enter` and its
first `ffs_sbupdate` do not survive. -/
def Crippled (q : Request) (s : State τ) (ump : Ufsmount τ) : Prop :=
  s.ump = some ump ∧ Furnished q s ump ∧ ump.devbsize = 0 ∧ vfsOpEnter ump = none ∧
    ∀ fs csp now dev, ffsSbupdate (ump.sb q.bigcgs) fs csp now dev = none

theorem mountSb_ret {g : Got} {h : Heap Obj} {s : State τ} (hl : Loaded g.loc [] h) (hret : mountSb q g h = .ret 0 s) :
    q.rdonly = true ∧ ∃ ump, Crippled q s ump := by
  unfold mountSb at hret
  dsimp only at hret
  split at hret
  · exact absurd hret (out_ne (by decide) _ _)
  split at hret
  · cases hret
  have hb := build_spec (τ := τ) (q := q) (clearPending (markUnclean g.fs)) hl
  generalize build q g (clearPending (markUnclean g.fs)) h = b at hret hb
  obtain ⟨s', fs, ump⟩ := b
  dsimp only at hret
  split at hret
  case isTrue hro =>
    obtain rfl := (Outcome.ret.inj hret).2
    refine ⟨hro, _, rfl, hb.furnished, hb.missing.1, ?_, ffsSbupdate_zero hb.missing.1⟩
    rw [vfsOpEnter, if_neg]
    simpa using hb.missing.2.1
  case isFalse =>
    -- A mount for writing ends in `ffs_sbupdate`, which divides by the zero of `um_devbsize`.
    split at hret
    case isTrue hsoft => exact absurd hret (out_ne hsoft.2 _ _)
    case isFalse =>
      rw [ffsSbupdate_zero hb.missing.1] at hret
      cases hret

/-- A mount that returns 0 is one for reading. -/
theorem furnished_of_ret [SysParam] {s : State τ} (h : ffsMountfs q = .ret 0 s) :
    q.rdonly = true ∧ ∃ ump, Crippled q s ump := by
  have hspec := ffsSbget_spec q
  unfold ffsMountfs at h
  split at h
  · cases h
  split at h
  · exact absurd h (out_ne (by decide) _ _)
  generalize ffsSbget q .empty = r at h hspec
  rcases r with ⟨_ | _ | g | g, h'⟩
  case error => exact absurd h (out_ne hspec.1 _ _)
  case panic => cases h
  case ignored => exact hspec.elim
  case ok => exact mountSb_ret hspec h

/-- A mount for reading has the superblock and the summary that `ffs_sbget` brought. -/
theorem mountSb_rdonly {g : Got} {h : Heap Obj} (hl : Loaded g.loc [] h) (hro : q.rdonly = true)
    (hgj : gjournal (clearPending (markUnclean g.fs)) = false) :
    ∃ s : State τ, mountSb q g h = .ret 0 s ∧ s.fs = some (g.loc, mounted q (clearPending (markUnclean g.fs))) ∧
      s.csp = g.csp := by
  have hdenied : denied q (markUnclean g.fs) = false := by simp [denied, hro]
  have hb : Built q g _ (build q g (clearPending (markUnclean g.fs)) h : State τ × Sb × Ufsmount τ) := build_spec _ hl
  unfold mountSb
  dsimp only
  rw [hdenied, hgj, if_neg Bool.false_ne_true, if_neg Bool.false_ne_true, if_pos hro]
  generalize (build q g (clearPending (markUnclean g.fs)) h : State τ × Sb × Ufsmount τ) = b at hb
  obtain ⟨s, fs, ump⟩ := b
  obtain rfl : fs = _ := hb.sb
  exact ⟨_, rfl, hb.fs, hb.csp⟩

/-- A plain file system with blocks of 4096 bytes, mounted for reading. -/
def sampleRequest : Request where
  dev x := sampleSb 0 (x - SBLOCK_UFS2)
  readErr _ := 0
  devblocksize := 512
  rdonly := true
  rootfs := false
  force := false
  untrusted := false
  specrdev := 1
  mntonname := []
  getvfs _ := false
  newfsid := (1, 1)
  features := none
  bigcgs := false
  softdepMount := 0
  timeSeconds := 0

attribute [local instance] SysParam.macos

/-- The mount returns 0. -/
theorem ffsMountfs_sample : ∃ s : State Unit, ffsMountfs sampleRequest = .ret 0 s := by
  have hok : (match (ffsSbget sampleRequest .empty).1 with
      | .ok g => gjournal (clearPending (markUnclean g.fs))
      | _ => true) = false := by decide +kernel
  have hspec := ffsSbget_spec sampleRequest
  rw [ffsMountfs, if_neg (by decide), if_neg (by decide)]
  generalize ffsSbget sampleRequest .empty = r at hok hspec
  rcases r with ⟨_ | _ | g | g, h⟩
  case error => cases hok
  case panic => cases hok
  case ignored => cases hok
  case ok =>
    have hro : sampleRequest.rdonly = true := rfl
    obtain ⟨s, hret, -⟩ := mountSb_rdonly hspec hro hok
    exact ⟨s, hret⟩

theorem not_ffsMountfs :
    (∃ s : State Unit, ffsMountfs sampleRequest = .ret 0 s) ∧ ¬ ∀ q : Request, Meets q (ffsMountfs q : Outcome Unit) := by
  refine ⟨ffsMountfs_sample, fun h => ?_⟩
  obtain ⟨s, hret⟩ := ffsMountfs_sample
  have hm := h sampleRequest
  rw [hret] at hm
  obtain ⟨ump, hump, -, hsound, -⟩ := hm
  obtain ⟨-, ump', hump', -, hzero, -⟩ := furnished_of_ret hret
  rw [hump] at hump'
  obtain rfl := Option.some.inj hump'
  exact hsound.devbsize hzero

end UfsX.Proofs.Mountfs
