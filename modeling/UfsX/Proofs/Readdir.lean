import UfsX.Ufs.Readdir
import UfsX.Proofs.Bmap
import UfsX.Proofs.Consistent
import UfsX.Proofs.DirRecords

/-!
# `UfsX.Proofs.Readdir`: does a listing return everything once?

The position of a block in the file is computed as its number times the size of its buffer. This is
right for a full block and for the first one. A last block that is a fragment comes out too
far in front; the loop takes the bytes behind its start for read, does not get to the end of
the directory and goes on for ever (`blockLoop_stuck`). `readdir_lists_iff` says that
apart from this, and from removed directories, listings are right.

A call starts at a boundary between two records and passes them one after the other: the
invariant is that it has given out the entries between its start and where it stands, and
that it stands behind its start as soon as something has been given out.
-/

set_option autoImplicit false

namespace UfsX.Proofs.Readdir

open UfsX.Lib UfsX.Ufs UfsX.Ufs.Readdir
open UfsX.Ffs (Fs)

/-! ### What is asked for -/

/-- Every record, a free one too, has room for the name that its length field announces. -/
def Roomy (arg : Arg) : Nat → List Rec → Prop
  | _, [] => True
  | o, r :: rs => dirsiz arg.ofs arg.data o ≤ r.reclen ∧ Roomy arg (o + r.reclen) rs

/-- A directory that records `rs` tile, as `ufs_dirbadentry` checks them. -/
structure Listable (arg : Arg) (rs : List Rec) : Prop where
  size_eq : arg.ip.size = recsLen rs
  blocks : DIRBLKSIZ ∣ arg.ip.size
  frag : DIRBLKSIZ ∣ arg.fs.fsize
  fits : Fits 0 rs
  holds : Holds arg.ofs arg.data 0 rs
  roomy : Roomy arg 0 rs

/-- The entries for the live records that do not stand before offset `start`. -/
def entriesOf (start : Nat) : Nat → List Rec → List Dirent
  | _, [] => []
  | o, r :: rs =>
      if o < start ∨ r.ino = 0 then entriesOf start (o + r.reclen) rs
      else ⟨r.ino, o + r.reclen, r.type, r.name⟩ :: entriesOf start (o + r.reclen) rs

/-- The buffer of a call has room for every single entry. -/
def Large (arg : Arg) (rs : List Rec) (resid : Nat) : Prop :=
  0 < resid ∧ ∀ r ∈ rs, r.ino ≠ 0 → genericDirsiz arg.direntOff r.name.length ≤ resid

/-- A call from offset `o` comes back with this result. -/
def Returns (arg : Arg) (o : Int) (resid : Nat) (res : Result) : Prop :=
  ∃ rounds, ∀ fuel, rounds ≤ fuel → ufsReaddir arg fuel o resid = some res

/-- Calls one after the other, each from the offset that the one before has left: where they start,
what they return together, and where they end. -/
inductive Listing (arg : Arg) (rs : List Rec) : Nat → List Dirent → Nat → Prop
  | done (o : Nat) : Listing arg rs o [] o
  | call {o o' o'' resid : Nat} {es es' : List Dirent} {eofflag : Option Bool} (hlarge : Large arg rs resid)
      (hcall : Returns arg o resid ⟨0, es, o', eofflag⟩) (hrest : Listing arg rs o' es' o'') :
      Listing arg rs o (es ++ es') o''

/-- Listings are right from every boundary between two records, which is where the seek offset of an
entry points. -/
structure ListsAll (arg : Arg) (rs : List Rec) : Prop where
  /-- A call returns, reports the end exactly when it is there, and otherwise gets on. -/
  call : ∀ before after, rs = before ++ after → ∀ resid, Large arg rs resid → ∃ es, ∃ o' : Nat,
    Returns arg (recsLen before) resid ⟨0, es, o', some (decide (arg.ip.size ≤ o'))⟩ ∧
      (recsLen before < o' ∨ arg.ip.size ≤ o')
  /-- Calls together return the entries that they have passed, once and in order. -/
  run : ∀ before after, rs = before ++ after → ∀ es o', Listing arg rs (recsLen before) es o' →
    ∃ mid rest, after = mid ++ rest ∧ o' = recsLen before + recsLen mid ∧ es = entriesOf 0 (recsLen before) mid
  /-- The seek offset of an entry is the boundary behind its record. -/
  seek : ∀ before after, rs = before ++ after → ∀ es o', Listing arg rs (recsLen before) es o' → ∀ d ∈ es,
    ∃ mid r rest, after = mid ++ r :: rest ∧ d = ⟨r.ino, recsLen (before ++ mid ++ [r]), r.type, r.name⟩

/-- Every block but the first has a buffer of the full size. -/
def FullBlocks (arg : Arg) : Prop :=
  ∀ lbn : Nat, 0 < lbn → lbn * arg.fs.bsize < arg.ip.size → blksize arg.fs arg.ip lbn = arg.fs.bsize

/-! ### The entries -/

section Entries

variable {start o : Nat} {rs rs' : List Rec}

theorem entriesOf_append (start o : Nat) (rs rs' : List Rec) :
    entriesOf start o (rs ++ rs') = entriesOf start o rs ++ entriesOf start (o + recsLen rs) rs' := by
  induction rs generalizing o with
  | nil => simp [entriesOf]
  | cons r rs ih =>
      simp only [List.cons_append, entriesOf, ih, recsLen_cons, Nat.add_assoc]
      split <;> rfl

/-- What stands before the start is left out. -/
theorem entriesOf_before (hpos : ∀ r ∈ rs, 0 < r.reclen) (h : o + recsLen rs ≤ start) : entriesOf start o rs = [] := by
  induction rs generalizing o with
  | nil => rfl
  | cons r rs ih =>
      have hr := hpos r List.mem_cons_self
      rw [recsLen_cons] at h
      unfold entriesOf
      rw [if_pos (.inl (by omega))]
      exact ih (fun r' hr' => hpos r' (List.mem_cons_of_mem _ hr')) (by omega)

/-- What stands behind the start is there. -/
theorem entriesOf_after (h : start ≤ o) : entriesOf start o rs = entriesOf 0 o rs := by
  induction rs generalizing o with
  | nil => rfl
  | cons r rs ih =>
      unfold entriesOf
      rw [ih (by omega)]
      simp only [show ¬ o < start by omega, Nat.not_lt_zero]

theorem mem_entriesOf {d : Dirent} (h : d ∈ entriesOf start o rs) :
    ∃ mid r rest, rs = mid ++ r :: rest ∧ d = ⟨r.ino, o + recsLen mid + r.reclen, r.type, r.name⟩ := by
  induction rs generalizing o with
  | nil => cases h
  | cons r rs ih =>
      unfold entriesOf at h
      have hlater : d ∈ entriesOf start (o + r.reclen) rs →
          ∃ mid r' rest, r :: rs = mid ++ r' :: rest ∧ d = ⟨r'.ino, o + recsLen mid + r'.reclen, r'.type, r'.name⟩ := by
        intro hd
        obtain ⟨mid, r', rest, hrs, heq⟩ := ih hd
        refine ⟨r :: mid, r', rest, by rw [hrs]; rfl, ?_⟩
        rw [heq, recsLen_cons, Nat.add_assoc o]
      split at h
      case isTrue => exact hlater h
      case isFalse =>
        rcases List.mem_cons.mp h with rfl | hd
        · exact ⟨[], r, rs, rfl, rfl⟩
        · exact hlater hd

end Entries

/-! ### One buffer -/

section Buffer

variable {arg : Arg} {start startresid base readcnt fuel : Nat} {s : State} {rs : List Rec}

theorem roomy_pos {o : Nat} (h : Roomy arg o rs) : ∀ r ∈ rs, 8 < r.reclen := by
  induction rs generalizing o with
  | nil => simp
  | cons r rs ih =>
      intro r' hr'
      rcases List.mem_cons.mp hr' with rfl | hmem
      · have hdir := eight_le_directsiz (dNamlen arg.ofs arg.data o)
        have hroom := h.1
        unfold dirsiz at hroom
        omega
      · exact ih h.2 r' hmem

theorem roomy_append {o : Nat} {rs' : List Rec} :
    Roomy arg o (rs ++ rs') ↔ Roomy arg o rs ∧ Roomy arg (o + recsLen rs) rs' := by
  induction rs generalizing o with
  | nil => simp [Roomy]
  | cons r rs ih => simp [Roomy, ih, and_assoc, Nat.add_assoc]

/-- The entry for a live record. -/
theorem direntAt_eq {p : Nat} {r : Rec} (hr : recOf arg.ofs arg.data p = r) (hlive : r.ino ≠ 0) :
    direntAt arg p p = ⟨r.ino, p + r.reclen, r.type, r.name⟩ := by
  have hino : dIno arg.data p ≠ 0 := by
    rw [← @recOf_ino arg.ofs, hr]
    exact hlive
  unfold recOf at hr
  rw [if_neg hino] at hr
  rw [← hr]
  rfl

/-- Where the loop over a buffer stops: at its end, or when the caller's buffer is full, and
then something has been given out. -/
structure Stopped (startresid : Nat) (rest : List Rec) (s : State) : Prop where
  error : s.error = 0 ∨ s.error = ejustreturn
  full : s.error = ejustreturn → s.resid ≠ startresid
  rest : rest = [] ∨ s.resid = 0 ∨ s.error = ejustreturn

/-- The loop over the records of a buffer passes some of them, and gives out their entries. -/
theorem entryLoop_spec {p : Nat} (hp : base + s.dp = p) (hoff : s.offset = p) (herr : s.error = 0)
    (hend : s.dp + recsLen rs = readcnt) (hholds : Holds arg.ofs arg.data p rs) (hroomy : Roomy arg p rs)
    (hlarge : ∀ r ∈ rs, r.ino ≠ 0 → genericDirsiz arg.direntOff r.name.length ≤ startresid)
    (hadv : s.resid = startresid ∨ start < s.offset) (hfuel : rs.length < fuel) :
    ∃ s' mid rest, entryLoop arg start startresid base readcnt fuel s = some s' ∧ rs = mid ++ rest ∧
      s'.offset = p + recsLen mid ∧ s'.out = s.out ++ entriesOf start p mid ∧
        (s'.resid = startresid ∨ start < s'.offset) ∧ Stopped startresid rest s' := by
  induction rs generalizing p s fuel with
  | nil =>
      cases fuel with
      | zero => exact absurd hfuel (Nat.not_lt_zero _)
      | succ fuel =>
          rw [recsLen_nil] at hend
          refine ⟨s, [], [], ?_, rfl, hoff, by simp [entriesOf], hadv, .inl herr, fun h => ?_, .inl rfl⟩
          · unfold entryLoop
            rw [if_pos (.inr (.inr (by omega)))]
          · rw [herr] at h
            exact absurd h (by decide)
  | cons r rs ih =>
      cases fuel with
      | zero => exact absurd hfuel (Nat.not_lt_zero _)
      | succ fuel =>
          have hrec := hholds.1
          have hlen : dReclen arg.data p = r.reclen := by rw [← hrec, recOf_reclen]
          have hino : dIno arg.data p = r.ino := by rw [← hrec, recOf_ino]
          have hroom := hroomy.1
          unfold dirsiz at hroom
          have hdir := eight_le_directsiz (dNamlen arg.ofs arg.data p)
          rw [recsLen_cons] at hend
          unfold entryLoop
          by_cases hempty : s.resid = 0
          · rw [if_pos (.inr (.inl hempty))]
            refine ⟨s, [], r :: rs, rfl, rfl, hoff, by simp [entriesOf], hadv, .inl herr, fun h => ?_, .inr (.inl hempty)⟩
            rw [herr] at h
            exact absurd h (by decide)
          · rw [if_neg (by omega)]
            dsimp only
            rw [hp, hlen, hino, if_neg (by unfold nameOff; omega), if_neg (by unfold nameOff; omega)]
            by_cases hskip : s.offset < start ∨ r.ino = 0
            · rw [if_pos hskip]
              obtain ⟨s', mid, rest, heq, hsplit, hoff', hout, hadv', hstop⟩ :=
                @ih fuel { s with offset := s.offset + r.reclen, dp := s.dp + r.reclen } (p + r.reclen)
                  (by dsimp only; omega) (by dsimp only; omega) herr (by dsimp only; omega) hholds.2 hroomy.2
                  (fun r' hr' => hlarge r' (List.mem_cons_of_mem _ hr')) (by dsimp only; omega) (by simpa using hfuel)
              refine ⟨s', r :: mid, rest, heq, by rw [hsplit]; rfl, ?_, ?_, hadv', hstop⟩
              · rw [recsLen_cons, hoff', Nat.add_assoc]
              · rw [hout, entriesOf, if_pos (by rwa [← hoff])]
            · rw [if_neg hskip]
              rw [not_or] at hskip
              rw [hoff, direntAt_eq hrec hskip.2]
              dsimp only
              by_cases hfit : s.resid < genericDirsiz arg.direntOff r.name.length
              · rw [if_pos hfit]
                have hne : s.resid ≠ startresid := by
                  have := hlarge r List.mem_cons_self hskip.2
                  omega
                refine ⟨_, [], r :: rs, rfl, rfl, rfl, by simp [entriesOf], by rwa [← hoff], .inr (if_neg hne), fun _ => hne, ?_⟩
                exact .inr (.inr (if_neg hne))
              · rw [if_neg hfit]
                obtain ⟨s', mid, rest, heq, hsplit, hoff', hout, hadv', hstop⟩ :=
                  @ih fuel
                    { s with
                      offset := p + r.reclen
                      dp := s.dp + r.reclen
                      resid := s.resid - genericDirsiz arg.direntOff r.name.length
                      out := s.out ++ [⟨r.ino, p + r.reclen, r.type, r.name⟩] }
                    (p + r.reclen) (by dsimp only; omega) rfl herr (by dsimp only; omega) hholds.2 hroomy.2
                    (fun r' hr' => hlarge r' (List.mem_cons_of_mem _ hr')) (by dsimp only; omega) (by simpa using hfuel)
                refine ⟨s', r :: mid, rest, heq, by rw [hsplit]; rfl, ?_, ?_, hadv', hstop⟩
                · rw [recsLen_cons, hoff', Nat.add_assoc]
                · rw [hout, entriesOf, if_neg (by omega), List.append_assoc]
                  rfl

end Buffer

/-! ### The blocks -/

section Blocks

variable {arg : Arg} {start startresid fuel : Nat} {s : State} {rs : List Rec}

/-- The buffer of a block of which the file has `x` bytes. -/
theorem blksize_cases (fs : Fs) (ip : Inode) {lbn : Nat} (h : lbn * fs.bsize < ip.size) :
    blksize fs ip lbn = fs.bsize ∨
      ip.size < (lbn + 1) * fs.bsize ∧ lbn < ndaddr ∧ ip.size % fs.bsize = ip.size - lbn * fs.bsize ∧
        blksize fs ip lbn = fs.fragroundup (ip.size - lbn * fs.bsize) := by
  unfold blksize
  by_cases hfull : (ndaddr : Int) ≤ lbn ∨ ((lbn : Int) + 1) * fs.bsize ≤ ip.size
  · exact .inl (if_pos hfull)
  · rw [if_neg hfull]
    rw [not_or] at hfull
    have hlast : ip.size < (lbn + 1) * fs.bsize := by
      have := hfull.2
      push_cast [← Int.ofNat_lt]
      omega
    have hmod : ip.size % fs.bsize = ip.size - lbn * fs.bsize := by
      have hdiv : ip.size / fs.bsize = lbn :=
        Nat.div_eq_of_lt_le h.le hlast
      have hdm := Nat.div_add_mod ip.size fs.bsize
      rw [hdiv, Nat.mul_comm] at hdm
      omega
    refine .inr ⟨hlast, by omega, hmod, ?_⟩
    unfold Ffs.Fs.blkoff
    rw [hmod]

/-- The end of a block, or of the directory in it. -/
def blockEnd (arg : Arg) (lbn : Nat) : Nat := min ((lbn + 1) * arg.fs.bsize) arg.ip.size

/-- The round for a block that begins where the source thinks it does. -/
theorem blockRound_eq {lbn u : Nat} (hlbn : u / arg.fs.bsize = lbn) (hu : u < arg.ip.size) (hoff : s.offset = u)
    (hbsize : DIRBLKSIZ ∣ arg.fs.bsize) (hgood : lbn = 0 ∨ blksize arg.fs arg.ip lbn = arg.fs.bsize) :
    blockRound arg start startresid fuel s =
      entryLoop arg start startresid (lbn * arg.fs.bsize) (blockEnd arg lbn - lbn * arg.fs.bsize) fuel
        { s with offset := u / DIRBLKSIZ * DIRBLKSIZ, dp := u / DIRBLKSIZ * DIRBLKSIZ - lbn * arg.fs.bsize } := by
  have hpos := bsize_pos arg.fs
  have hdm := Nat.div_add_mod u arg.fs.bsize
  have hmod := Nat.mod_lt u hpos
  rw [hlbn, Nat.mul_comm] at hdm
  have hsize := @blksize_cases arg.fs arg.ip lbn (by omega)
  have hround := le_fragroundup arg.fs (arg.ip.size - lbn * arg.fs.bsize)
  have hbase : lbn * blksize arg.fs arg.ip lbn = lbn * arg.fs.bsize := by
    rcases hgood with rfl | hfull
    · simp
    · rw [hfull]
  have hcount : (if arg.ip.size < lbn * arg.fs.bsize + blksize arg.fs arg.ip lbn then arg.ip.size - lbn * arg.fs.bsize
      else blksize arg.fs arg.ip lbn) = blockEnd arg lbn - lbn * arg.fs.bsize := by
    unfold blockEnd
    rw [Nat.add_mul, Nat.one_mul]
    rcases hsize with hfull | ⟨hlast, -, -, hfrag⟩
    · rw [hfull]
      split <;> omega
    · rw [Nat.add_mul, Nat.one_mul] at hlast
      rw [hfrag]
      split <;> omega
  have hskip : (u - lbn * arg.fs.bsize) / DIRBLKSIZ * DIRBLKSIZ = u / DIRBLKSIZ * DIRBLKSIZ - lbn * arg.fs.bsize := by
    obtain ⟨k, hk⟩ := hbsize
    rw [hk, Nat.mul_left_comm, Nat.sub_mul_div, Nat.sub_mul]
    congr 1
    rw [Nat.mul_comm]
  unfold blockRound
  simp only [hoff, hlbn, hbase, hcount]
  rw [hskip]
  have hle : lbn * arg.fs.bsize ≤ u / DIRBLKSIZ * DIRBLKSIZ := by
    obtain ⟨k, hk⟩ := hbsize
    rw [hk] at hdm ⊢
    have hle' : lbn * k ≤ u / DIRBLKSIZ := by
      rw [Nat.le_div_iff_mul_le (by decide)]
      calc lbn * k * DIRBLKSIZ = lbn * (DIRBLKSIZ * k) := by ring
        _ ≤ u := by omega
    calc lbn * (DIRBLKSIZ * k) = lbn * k * DIRBLKSIZ := by ring
      _ ≤ u / DIRBLKSIZ * DIRBLKSIZ := Nat.mul_le_mul_right _ hle'
  rw [Nat.add_sub_cancel' hle]

theorem blockLoop_stop (h : s.error ≠ 0 ∨ s.resid = 0 ∨ arg.ip.size ≤ s.offset) (hfuel : 0 < fuel) :
    blockLoop arg start startresid fuel s = some s := by
  cases fuel with
  | zero => exact absurd hfuel (Nat.not_lt_zero _)
  | succ fuel =>
      unfold blockLoop
      rw [if_pos h]

/-- What is common to the rounds: the records between a block of directory and its end. -/
structure Ahead (arg : Arg) (p : Nat) (rs : List Rec) : Prop where
  fits : Fits p rs
  holds : Holds arg.ofs arg.data p rs
  roomy : Roomy arg p rs
  size_eq : p + recsLen rs = arg.ip.size

theorem Ahead.drop {p : Nat} {rs' : List Rec} (h : Ahead arg p (rs ++ rs')) : Ahead arg (p + recsLen rs) rs' := by
  obtain ⟨hfits, hholds, hroomy, hsize⟩ := h
  refine ⟨(fits_append.mp hfits).2, (holds_append.mp hholds).2, (roomy_append.mp hroomy).2, ?_⟩
  rw [recsLen_append] at hsize
  omega

/-- The loop over the blocks passes some of the records ahead, and gives out their entries. A call
may begin inside a directory block; later rounds begin with one. -/
theorem blockLoop_spec (hfull : FullBlocks arg) (hbsize : DIRBLKSIZ ∣ arg.fs.bsize) (hblocks : DIRBLKSIZ ∣ arg.ip.size)
    {u p : Nat} (hp : p = u / DIRBLKSIZ * DIRBLKSIZ) (hoff : s.offset = u) (herr : s.error = 0)
    (hu : u ≤ arg.ip.size) (hstart : u = p ∨ 0 < s.resid ∧ u < arg.ip.size) (hahead : Ahead arg p rs)
    (hlarge : ∀ r ∈ rs, r.ino ≠ 0 → genericDirsiz arg.direntOff r.name.length ≤ startresid)
    (hadv : s.resid = startresid ∨ start < p) (hfuel : rs.length + 1 < fuel) :
    ∃ s' mid rest, blockLoop arg start startresid fuel s = some s' ∧ rs = mid ++ rest ∧
      s'.offset = p + recsLen mid ∧ s'.out = s.out ++ entriesOf start p mid ∧
        (s'.resid = startresid ∨ start < s'.offset) ∧ Stopped startresid rest s' := by
  induction fuel generalizing s u p rs with
  | zero => exact absurd hfuel (Nat.not_lt_zero _)
  | succ fuel ih =>
      have hrecs := roomy_pos hahead.roomy
      have hsize := hahead.size_eq
      by_cases hstop : s.resid = 0 ∨ arg.ip.size ≤ u
      · have hup : u = p := by
          rcases hstart with h | ⟨h₁, h₂⟩
          · exact h
          · omega
        refine ⟨s, [], rs, blockLoop_stop (.inr (by rwa [hoff])) (Nat.succ_pos _), rfl, hoff.trans hup, by simp [entriesOf],
          by rwa [hoff, hup], .inl herr, fun h => ?_, ?_⟩
        · rw [herr] at h
          exact absurd h (by decide)
        · rcases hstop with hzero | hdone
          · exact .inr (.inl hzero)
          · left
            cases rs with
            | nil => rfl
            | cons r rs =>
                have := hrecs r List.mem_cons_self
                rw [recsLen_cons] at hsize
                omega
      · rw [not_or, not_le] at hstop
        unfold blockLoop
        rw [if_neg (by rw [hoff]; omega)]
        have hblk := Nat.div_add_mod u arg.fs.bsize
        have hmod := Nat.mod_lt u (bsize_pos arg.fs)
        have hdir := Nat.div_add_mod u DIRBLKSIZ
        have hdirmod : u % DIRBLKSIZ < DIRBLKSIZ := Nat.mod_lt u (by decide)
        rw [Nat.mul_comm] at hblk hdir
        have hgood : u / arg.fs.bsize = 0 ∨ blksize arg.fs arg.ip (u / arg.fs.bsize : Nat) = arg.fs.bsize := by
          rcases Nat.eq_zero_or_pos (u / arg.fs.bsize) with hz | hp
          · exact .inl hz
          · exact .inr (hfull _ hp (by omega))
        rw [blockRound_eq rfl hstop.2 hoff hbsize hgood, ← hp]
        generalize hlbn : u / arg.fs.bsize = lbn at hblk
        -- the records of this block, and the ones behind it
        have hend : blockEnd arg lbn = min ((lbn + 1) * arg.fs.bsize) arg.ip.size := rfl
        rw [Nat.add_mul, Nat.one_mul] at hend
        have hdvd : DIRBLKSIZ ∣ blockEnd arg lbn := by
          unfold blockEnd
          rcases min_choice ((lbn + 1) * arg.fs.bsize) arg.ip.size with h | h
          · rw [h]
            exact Dvd.dvd.mul_left hbsize _
          · rw [h]
            exact hblocks
        obtain ⟨rs₁, rs₂, rfl, hcut⟩ := exists_cut hahead.fits (fun r hr => by have := hrecs r hr; omega) hdvd
          (show p ≤ blockEnd arg lbn by omega) (by omega)
        have hlow : lbn * arg.fs.bsize ≤ p := by
          obtain ⟨k, hk⟩ := hbsize
          have hle : lbn * k ≤ u / DIRBLKSIZ := by
            rw [Nat.le_div_iff_mul_le (by decide)]
            calc lbn * k * DIRBLKSIZ = lbn * arg.fs.bsize := by rw [hk]; ring
              _ ≤ u := by omega
          calc lbn * arg.fs.bsize = lbn * k * DIRBLKSIZ := by rw [hk]; ring
            _ ≤ p := by rw [hp]; exact Nat.mul_le_mul_right _ hle
        have hfirst := fun r hr => hlarge r (List.mem_append_left rs₂ hr)
        obtain ⟨s₁, mid, rest, heq, hsplit, hoff₁, hout₁, hadv₁, hstop₁⟩ :=
          @entryLoop_spec arg start startresid (lbn * arg.fs.bsize) (blockEnd arg lbn - lbn * arg.fs.bsize) fuel
            { s with offset := p, dp := p - lbn * arg.fs.bsize } rs₁ p (by dsimp only; omega) rfl herr (by dsimp only; omega)
            (holds_append.mp hahead.holds).1 (roomy_append.mp hahead.roomy).1 hfirst hadv
            (by rw [List.length_append] at hfuel; omega)
        rw [heq]
        show ∃ s' mid rest, blockLoop arg start startresid fuel s₁ = some s' ∧ _
        by_cases hgo : s₁.error = 0 ∧ s₁.resid ≠ 0
        · have hnil : rest = [] := by
            rcases hstop₁.rest with h | h | h
            · exact h
            · exact absurd h hgo.2
            · rw [hgo.1] at h
              exact absurd h (by decide)
          rw [hnil, List.append_nil] at hsplit
          subst hsplit
          have hne : rs₁ ≠ [] := by
            rintro rfl
            rw [recsLen_nil] at hcut
            omega
          have hlen := List.length_pos_of_ne_nil hne
          obtain ⟨s', mid, rest, heq', hsplit', hoff', hout', hadv', hstop'⟩ :=
            @ih s₁ rs₂ (blockEnd arg lbn) (p + recsLen rs₁) (by rw [hcut, Nat.div_mul_cancel hdvd])
              (by rw [hoff₁, hcut]) hgo.1 (by omega) (.inl hcut.symm) hahead.drop
              (fun r hr => hlarge r (List.mem_append_right rs₁ hr)) (by rw [← hoff₁]; exact hadv₁)
              (by rw [List.length_append] at hfuel; omega)
          refine ⟨s', rs₁ ++ mid, rest, heq', by rw [hsplit', List.append_assoc], ?_, ?_, hadv', hstop'⟩
          · rw [hoff', recsLen_append, Nat.add_assoc]
          · rw [hout', hout₁, List.append_assoc, entriesOf_append]
        · have hhalt : s₁.error ≠ 0 ∨ s₁.resid = 0 := by
            rw [not_and_or, not_not] at hgo
            exact hgo
          have hend₁ : s₁.resid = 0 ∨ s₁.error = ejustreturn := by
            rcases hhalt with h | h
            · exact .inr (hstop₁.error.resolve_left h)
            · exact .inl h
          refine ⟨s₁, mid, rest ++ rs₂, blockLoop_stop (hhalt.imp_right .inl) (by omega), by rw [hsplit, List.append_assoc], hoff₁, hout₁,
            hadv₁, hstop₁.error, hstop₁.full, .inr hend₁⟩

end Blocks

/-! ### More rounds -/

section Fuel

variable {arg : Arg} {start startresid base readcnt fuel fuel' : Nat} {s s' : State}

theorem entryLoop_mono (h : entryLoop arg start startresid base readcnt fuel s = some s') (hle : fuel ≤ fuel') :
    entryLoop arg start startresid base readcnt fuel' s = some s' := by
  induction fuel generalizing s fuel' with
  | zero => cases h
  | succ fuel ih =>
      obtain ⟨fuel', rfl⟩ := Nat.exists_eq_add_of_le' (Nat.le_trans (Nat.succ_pos fuel) hle)
      unfold entryLoop at h ⊢
      split at h
      case isTrue hstop =>
        rw [if_pos hstop]
        exact h
      case isFalse hstop =>
        rw [if_neg hstop]
        dsimp only at h ⊢
        split at h
        case isTrue hbad =>
          rw [if_pos hbad]
          exact h
        case isFalse hbad =>
          rw [if_neg hbad]
          split at h
          case isTrue hname =>
            rw [if_pos hname]
            exact h
          case isFalse hname =>
            rw [if_neg hname]
            split at h
            case isTrue hskip =>
              rw [if_pos hskip]
              exact ih h (by omega)
            case isFalse hskip =>
              rw [if_neg hskip]
              split at h
              case isTrue hfit =>
                rw [if_pos hfit]
                exact h
              case isFalse hfit =>
                rw [if_neg hfit]
                exact ih h (by omega)

theorem blockLoop_mono (h : blockLoop arg start startresid fuel s = some s') (hle : fuel ≤ fuel') :
    blockLoop arg start startresid fuel' s = some s' := by
  induction fuel generalizing s fuel' with
  | zero => cases h
  | succ fuel ih =>
      obtain ⟨fuel', rfl⟩ := Nat.exists_eq_add_of_le' (Nat.le_trans (Nat.succ_pos fuel) hle)
      unfold blockLoop at h ⊢
      split at h
      case isTrue hstop =>
        rw [if_pos hstop]
        exact h
      case isFalse hstop =>
        rw [if_neg hstop]
        obtain ⟨s₁, hround, hrest⟩ := Option.bind_eq_some_iff.mp h
        rw [blockRound, entryLoop_mono hround (show fuel ≤ fuel' by omega)]
        exact ih hrest (by omega)

end Fuel

/-! ### A call -/

section Call

variable {arg : Arg} {rs : List Rec}

/-- A list that goes past a prefix begins with it. -/
theorem prefix_of_recsLen {mid rest before after : List Rec} (h : mid ++ rest = before ++ after)
    (hpos : ∀ r ∈ before ++ after, 0 < r.reclen) (hle : recsLen before ≤ recsLen mid) :
    ∃ mid', mid = before ++ mid' ∧ after = mid' ++ rest := by
  rcases List.append_eq_append_iff.mp h with ⟨as, hb, hr⟩ | ⟨bs, hm, ha⟩
  · cases as with
    | nil =>
        rw [List.append_nil] at hb
        exact ⟨[], by rw [hb, List.append_nil], hr.symm⟩
    | cons a as =>
        rw [hb, recsLen_append, recsLen_cons] at hle
        have := hpos a (List.mem_append_left _ (by rw [hb]; simp))
        omega
  · exact ⟨bs, hm, ha⟩

/-- A call from a boundary passes some of the records behind it, and gives out their entries. -/
theorem readdir_spec (h : Listable arg rs) (hlink : arg.effnlink ≠ 0) (hfull : FullBlocks arg) {before after : List Rec}
    (hsplit : rs = before ++ after) {resid : Nat} (hlarge : Large arg rs resid) :
    ∃ mid rest, after = mid ++ rest ∧
      Returns arg (recsLen before) resid
        ⟨0, entriesOf 0 (recsLen before) mid, (recsLen before + recsLen mid : Nat),
          some (decide (arg.ip.size ≤ recsLen before + recsLen mid))⟩ ∧
      (recsLen before < recsLen before + recsLen mid ∨ arg.ip.size ≤ recsLen before + recsLen mid) := by
  have hbsize : DIRBLKSIZ ∣ arg.fs.bsize := by
    rw [arg.fs.bsize_eq]
    exact Dvd.dvd.mul_left h.frag _
  have hrecs := roomy_pos h.roomy
  have hpos : ∀ r ∈ rs, 0 < r.reclen := fun r hr => by have := hrecs r hr; omega
  have hsize : arg.ip.size = recsLen before + recsLen after := by rw [h.size_eq, hsplit, recsLen_append]
  -- the directory block of the start
  generalize hstart : recsLen before = start at *
  have hdir := Nat.div_add_mod start DIRBLKSIZ
  have hdirmod : start % DIRBLKSIZ < DIRBLKSIZ := Nat.mod_lt start (by decide)
  rw [Nat.mul_comm] at hdir
  have hfits := h.fits
  have hholds := h.holds
  have hroomy := h.roomy
  rw [hsplit] at hfits hholds hroomy hpos
  obtain ⟨b₁, b₂, rfl, hcut⟩ := exists_cut (fits_append.mp hfits).1 (fun r hr => hpos r (List.mem_append_left _ hr))
    (Dvd.intro_left (start / DIRBLKSIZ) rfl) (Nat.zero_le _) (show start / DIRBLKSIZ * DIRBLKSIZ ≤ 0 + recsLen before by omega)
  rw [Nat.zero_add] at hcut
  rw [recsLen_append, hcut] at hstart
  have hahead₀ : Ahead arg 0 (b₁ ++ (b₂ ++ after)) := by
    rw [← List.append_assoc]
    refine ⟨hfits, hholds, hroomy, ?_⟩
    rw [h.size_eq, hsplit, Nat.zero_add]
  have hahead := hahead₀.drop
  rw [Nat.zero_add, hcut] at hahead
  obtain ⟨hresid, hroom⟩ := hlarge
  have hroom' : ∀ r ∈ b₂ ++ after, r.ino ≠ 0 → genericDirsiz arg.direntOff r.name.length ≤ resid := by
    intro r hr
    refine hroom r ?_
    rw [hsplit, List.append_assoc]
    exact List.mem_append_right _ hr
  have hstart' : start = start / DIRBLKSIZ * DIRBLKSIZ ∨ 0 < resid ∧ start < arg.ip.size := by
    rcases Nat.lt_or_ge start arg.ip.size with hlt | hge
    · exact .inr ⟨hresid, hlt⟩
    · obtain ⟨k, hk⟩ := h.blocks
      left
      rw [show start = DIRBLKSIZ * k by omega, Nat.mul_div_cancel_left k (by decide), Nat.mul_comm]
  obtain ⟨s', mid, rest, heq, hmid, hoff, hout, hadv, hstop⟩ :=
    @blockLoop_spec arg start resid ((b₂ ++ after).length + 2) ⟨start, 0, resid, [], 0⟩ (b₂ ++ after) hfull hbsize h.blocks
      start _ rfl rfl rfl (by omega) hstart' hahead hroom' (.inl rfl) (Nat.lt_succ_self _)
  have hprogress : start < s'.offset ∨ rest = [] := by
    rcases hadv with heq | hlt
    · right
      rcases hstop.rest with hnil | hzero | hjust
      · exact hnil
      · omega
      · exact absurd heq (hstop.full hjust)
    · exact .inl hlt
  have hall : rest = [] → s'.offset = arg.ip.size := by
    rintro rfl
    rw [List.append_nil] at hmid
    rw [hoff, ← hmid]
    exact hahead.size_eq
  have hpast : recsLen b₂ ≤ recsLen mid := by
    rcases hprogress with hlt | hnil
    · omega
    · have := hall hnil
      omega
  obtain ⟨mid', rfl, rfl⟩ := prefix_of_recsLen hmid.symm
    (fun r hr => hpos r (by rw [List.append_assoc]; exact List.mem_append_right _ hr)) hpast
  rw [recsLen_append, ← Nat.add_assoc, hstart] at hoff
  rw [entriesOf_append, entriesOf_before (fun r hr => hpos r (List.mem_append_left _ (List.mem_append_right _ hr)))
    (le_of_eq hstart), hstart, entriesOf_after (le_refl _)] at hout
  refine ⟨mid', rest, rfl, ⟨(b₂ ++ (mid' ++ rest)).length + 2, fun fuel hfuel => ?_⟩, ?_⟩
  · have hgo := blockLoop_mono heq hfuel
    have hzero : (if s'.error = ejustreturn then 0 else s'.error) = 0 := by
      rcases hstop.error with he | he
      · rw [he]
        rfl
      · exact if_pos he
    unfold ufsReaddir
    rw [if_neg (by omega), if_neg hlink, Int.toNat_natCast, hgo]
    simp only [Option.map_some, hzero, if_true, hoff, hout, List.nil_append]
  · rcases hprogress with hlt | hnil
    · left
      omega
    · right
      have := hall hnil
      omega

end Call

/-! ### A fragment at the end -/

section Fragment

variable {arg : Arg} {start startresid base readcnt fuel lbn : Nat} {s s' : State}

/-- The largest entry. -/
def maxDirent (arg : Arg) : Nat := genericDirsiz arg.direntOff 255

theorem genericDirsiz_le {n : Nat} (h : n ≤ 255) : genericDirsiz arg.direntOff n ≤ maxDirent arg := by
  unfold maxDirent genericDirsiz
  omega

theorem dNamlen_le (ofs : Bool) (m : Mem) (o : Nat) : dNamlen ofs m o ≤ 255 := by
  unfold dNamlen
  exact Nat.lt_succ_iff.mp (UInt8.toNat_lt _)

/-- Whatever the buffer holds, a caller with much room gets an error or what is left of it. -/
theorem entryLoop_room (herr : s.error = 0) (hle : s.dp ≤ readcnt) (hroom : maxDirent arg * (readcnt - s.dp) < s.resid)
    (h : entryLoop arg start startresid base readcnt fuel s = some s') :
    s'.error = eio ∨ s'.error = 0 ∧ s'.offset = s.offset + (readcnt - s.dp) ∧
      s.resid ≤ s'.resid + maxDirent arg * (readcnt - s.dp) := by
  induction fuel generalizing s with
  | zero => cases h
  | succ fuel ih =>
      unfold entryLoop at h
      split at h
      case isTrue hstop =>
        obtain rfl := Option.some.inj h
        right
        have hdone : readcnt - s.dp = 0 := by omega
        rw [hdone]
        exact ⟨herr, rfl, Nat.le_add_right _ _⟩
      case isFalse hstop =>
        dsimp only at h
        split at h
        case isTrue =>
          obtain rfl := Option.some.inj h
          exact .inl rfl
        case isFalse hbad =>
          split at h
          case isTrue =>
            obtain rfl := Option.some.inj h
            exact .inl rfl
          case isFalse hname =>
            generalize hlen : dReclen arg.data (base + s.dp) = reclen at h hbad
            have hsplit : readcnt - s.dp = reclen + (readcnt - (s.dp + reclen)) := by omega
            rw [hsplit, Nat.mul_add] at hroom
            have hone : maxDirent arg ≤ maxDirent arg * reclen := Nat.le_mul_of_pos_right _ (by omega)
            split at h
            case isTrue =>
              have hrest := ih (s := { s with offset := s.offset + reclen, dp := s.dp + reclen }) herr
                (by dsimp only; omega) (by dsimp only; omega) h
              dsimp only at hrest
              rw [hsplit, Nat.mul_add]
              rcases hrest with he | ⟨he, ho, hr⟩
              · exact .inl he
              · exact .inr ⟨he, by omega, by omega⟩
            case isFalse =>
              have hfit : genericDirsiz arg.direntOff (direntAt arg s.offset (base + s.dp)).name.length ≤ maxDirent arg := by
                refine genericDirsiz_le ?_
                show (dName arg.ofs arg.data (base + s.dp)).length ≤ 255
                rw [dName_length]
                exact dNamlen_le _ _ _
              rw [if_neg (by omega)] at h
              have hrest := ih (s := { s with
                offset := s.offset + reclen
                dp := s.dp + reclen
                resid := s.resid - genericDirsiz arg.direntOff (direntAt arg s.offset (base + s.dp)).name.length
                out := s.out ++ [direntAt arg s.offset (base + s.dp)] }) herr
                (by dsimp only; omega) (by dsimp only; omega) h
              dsimp only at hrest
              rw [hsplit, Nat.mul_add]
              rcases hrest with he | ⟨he, ho, hr⟩
              · exact .inl he
              · exact .inr ⟨he, by omega, by omega⟩

/-- The last block is a fragment, and not the first. -/
structure LastFragment (arg : Arg) (lbn : Nat) : Prop where
  pos : 0 < lbn
  lt : lbn * arg.fs.bsize < arg.ip.size
  ne : blksize arg.fs arg.ip lbn ≠ arg.fs.bsize

theorem exists_lastFragment (h : ¬ FullBlocks arg) : ∃ lbn, LastFragment arg lbn := by
  by_contra hnone
  refine h fun lbn hpos hlt => ?_
  by_contra hne
  exact hnone ⟨lbn, hpos, hlt, hne⟩

/-- The numbers of a fragment: it ends the directory, and as a whole block in its place it would end
in front of that. -/
theorem LastFragment.bounds (h : LastFragment arg lbn) (hfrag : DIRBLKSIZ ∣ arg.fs.fsize) :
    arg.ip.size < (lbn + 1) * arg.fs.bsize ∧
      (lbn + 1) * blksize arg.fs arg.ip lbn < arg.ip.size ∧
        lbn * blksize arg.fs arg.ip lbn ≤ lbn * arg.fs.bsize ∧ DIRBLKSIZ ∣ blksize arg.fs arg.ip lbn := by
  obtain ⟨hlast, -, -, heq⟩ := (blksize_cases arg.fs arg.ip h.lt).resolve_left h.ne
  have hle := blksize_le arg.fs arg.ip lbn
  have hne := h.ne
  have hpos := arg.fs.fsize_pos
  refine ⟨hlast, ?_, Nat.mul_le_mul_left _ hle, ?_⟩
  · -- block and fragment are both so many times `fs_fsize`, the fragment fewer times
    rw [heq] at hle hne ⊢
    generalize hx : arg.ip.size - lbn * arg.fs.bsize = x at *
    have hround : arg.fs.fragroundup x < x + arg.fs.fsize := by
      have hdm := Nat.div_add_mod (x + (arg.fs.fsize - 1)) arg.fs.fsize
      unfold Fs.fragroundup
      rw [Nat.mul_comm]
      omega
    have hgap : arg.fs.fragroundup x + arg.fs.fsize ≤ arg.fs.bsize := by
      unfold Fs.fragroundup at hle hne ⊢
      rw [arg.fs.bsize_eq] at hle hne ⊢
      have hlt := Nat.lt_of_le_of_ne hle hne
      have hq := Nat.lt_of_mul_lt_mul_right hlt
      calc _ = ((x + (arg.fs.fsize - 1)) / arg.fs.fsize + 1) * arg.fs.fsize := by rw [Nat.add_mul, Nat.one_mul]
        _ ≤ arg.fs.frag * arg.fs.fsize := Nat.mul_le_mul_right _ hq
    have hmul := Nat.mul_le_mul_left lbn hgap
    have hone : arg.fs.fsize ≤ lbn * arg.fs.fsize := Nat.le_mul_of_pos_left _ h.pos
    rw [Nat.mul_add] at hmul
    rw [Nat.add_mul, Nat.one_mul]
    have hlt := h.lt
    omega
  · rw [heq]
    exact Dvd.dvd.mul_left hfrag _

/-- The end of the directory is out of reach: the loop is in the fragment, behind the bytes that it
takes for the fragment's, and stays there. -/
theorem blockLoop_stuck (h : LastFragment arg lbn) (hfrag : DIRBLKSIZ ∣ arg.fs.fsize) {u : Nat}
    (hlo : lbn * arg.fs.bsize ≤ u) (hu : u < arg.ip.size) (hdvd : DIRBLKSIZ ∣ u)
    (hpast : (lbn + 1) * blksize arg.fs arg.ip lbn ≤ u) (hoff : s.offset = u) (herr : s.error = 0) (hroom : 0 < s.resid) :
    blockLoop arg start startresid fuel s = none := by
  obtain ⟨hlast, hend, hle, hblk⟩ := h.bounds hfrag
  induction fuel generalizing s with
  | zero => rfl
  | succ fuel ih =>
      have hlbn : u / arg.fs.bsize = lbn := Nat.div_eq_of_lt_le hlo (by omega)
      unfold blockLoop blockRound
      rw [if_neg (by omega)]
      simp only [hoff, hlbn]
      rw [Nat.add_mul, Nat.one_mul] at hpast hend
      generalize blksize arg.fs arg.ip lbn = n at *
      have hskip : (u - lbn * n) / DIRBLKSIZ * DIRBLKSIZ = u - lbn * n :=
        Nat.div_mul_cancel (Nat.dvd_sub hdvd (Dvd.dvd.mul_left hblk _))
      rw [hskip, if_neg (by omega), Nat.add_sub_cancel' (by omega)]
      cases fuel with
      | zero => rfl
      | succ fuel =>
          unfold entryLoop
          rw [if_pos (.inr (.inr (by dsimp only; omega)))]
          exact ih rfl herr hroom

/-- From the beginning of a block on, a caller with much room gets nothing but an error. -/
theorem blockLoop_fragment (h : LastFragment arg lbn) (hfrag : DIRBLKSIZ ∣ arg.fs.fsize) {k : Nat} (hk : k ≤ lbn)
    (hoff : s.offset = k * arg.fs.bsize) (herr : s.error = 0)
    (hroom : maxDirent arg * ((lbn + 1) * arg.fs.bsize - k * arg.fs.bsize) < s.resid)
    (hres : blockLoop arg start startresid fuel s = some s') : s'.error = eio := by
  obtain ⟨hlast, hend, hle, hblk⟩ := h.bounds hfrag
  have hbsize : DIRBLKSIZ ∣ arg.fs.bsize := by
    rw [arg.fs.bsize_eq]
    exact Dvd.dvd.mul_left hfrag _
  have hpos := bsize_pos arg.fs
  induction fuel generalizing s k with
  | zero => cases hres
  | succ fuel ih =>
      have hkl := Nat.mul_le_mul_right arg.fs.bsize hk
      have hlt := h.lt
      unfold blockLoop at hres
      rw [if_neg (by omega)] at hres
      obtain ⟨s₁, hround, hrest⟩ := Option.bind_eq_some_iff.mp hres
      have herr₁ : s₁.error = eio → s'.error = eio := by
        intro he
        cases fuel with
        | zero => cases hrest
        | succ fuel =>
            rw [blockLoop_stop (.inl (by rw [he]; decide)) (Nat.succ_pos _)] at hrest
            obtain rfl := Option.some.inj hrest
            exact he
      have hdiv : k * arg.fs.bsize / arg.fs.bsize = k := Nat.mul_div_cancel k hpos
      rcases Nat.lt_or_eq_of_le hk with hklt | rfl
      · -- a full block in front of the fragment
        have hnext : (k + 1) * arg.fs.bsize ≤ lbn * arg.fs.bsize := Nat.mul_le_mul_right _ hklt
        have hfull : blksize arg.fs arg.ip k = arg.fs.bsize :=
          (blksize_cases arg.fs arg.ip (show k * arg.fs.bsize < arg.ip.size by omega)).resolve_right
            fun hno => by have := hno.1; omega
        rw [blockRound_eq hdiv (by omega) hoff hbsize (.inr hfull)] at hround
        have hdir : k * arg.fs.bsize / DIRBLKSIZ * DIRBLKSIZ = k * arg.fs.bsize :=
          Nat.div_mul_cancel (Dvd.dvd.mul_left hbsize _)
        have hcount : blockEnd arg k - k * arg.fs.bsize = arg.fs.bsize := by
          unfold blockEnd
          rw [Nat.add_mul, Nat.one_mul] at hnext ⊢
          omega
        rw [hdir, Nat.sub_self, hcount] at hround
        have hsplit : (lbn + 1) * arg.fs.bsize - k * arg.fs.bsize
            = arg.fs.bsize + ((lbn + 1) * arg.fs.bsize - (k + 1) * arg.fs.bsize) := by
          rw [Nat.add_mul, Nat.one_mul] at hnext
          rw [Nat.add_mul, Nat.add_mul, Nat.one_mul]
          omega
        rw [hsplit, Nat.mul_add] at hroom
        have hend₁ := entryLoop_room (s := { s with offset := k * arg.fs.bsize, dp := 0 }) herr (Nat.zero_le _)
          (by dsimp only; rw [Nat.sub_zero]; omega) hround
        rw [Nat.sub_zero] at hend₁
        rcases hend₁ with he | ⟨he, ho, hr⟩
        · exact herr₁ he
        · refine ih (k := k + 1) hklt ?_ he ?_ hrest
          · rw [ho, Nat.add_mul, Nat.one_mul]
          · dsimp only at hr
            omega
      · -- the fragment
        by_cases hpast : (k + 1) * blksize arg.fs arg.ip k ≤ k * arg.fs.bsize
        · have hnone : blockLoop arg start startresid (fuel + 1) s = none :=
            blockLoop_stuck h hfrag (le_refl _) h.lt (Dvd.dvd.mul_left hbsize _) hpast hoff herr (by omega)
          unfold blockLoop at hnone
          rw [if_neg (by omega), hround] at hnone
          exact absurd (hnone.symm.trans hrest) (by simp)
        · unfold blockRound at hround
          simp only [hoff, hdiv] at hround
          generalize hn : blksize arg.fs arg.ip k = n at *
          rw [Nat.add_mul, Nat.one_mul] at hpast hend hlast
          have hskip : (k * arg.fs.bsize - k * n) / DIRBLKSIZ * DIRBLKSIZ = k * arg.fs.bsize - k * n :=
            Nat.div_mul_cancel (Nat.dvd_sub (Dvd.dvd.mul_left hbsize _) (Dvd.dvd.mul_left hblk _))
          rw [hskip, if_neg (by omega), Nat.add_sub_cancel' hle] at hround
          have hn_le : n ≤ arg.fs.bsize := by rw [← hn]; exact blksize_le _ _ _
          have hless : maxDirent arg * (n - (k * arg.fs.bsize - k * n)) ≤
              maxDirent arg * ((k + 1) * arg.fs.bsize - k * arg.fs.bsize) := by
            refine Nat.mul_le_mul_left _ ?_
            rw [Nat.add_mul, Nat.one_mul]
            omega
          have hend₁ := entryLoop_room
            (s := { s with offset := k * arg.fs.bsize, dp := k * arg.fs.bsize - k * n }) herr (by dsimp only; omega)
            (by dsimp only; omega) hround
          dsimp only at hend₁
          rcases hend₁ with he | ⟨he, ho, hr⟩
          · exact herr₁ he
          · have hto : s₁.offset = (k + 1) * n := by
              rw [ho, Nat.add_mul, Nat.one_mul]
              omega
            have hnone : blockLoop arg start startresid fuel s₁ = none :=
              blockLoop_stuck h hfrag (by rw [Nat.add_mul, Nat.one_mul]; omega) (by rw [Nat.add_mul, Nat.one_mul]; omega)
                (Dvd.dvd.mul_left hblk _) (by rw [hn]) hto he (by omega)
            rw [hnone] at hrest
            cases hrest

end Fragment

/-! ### Listings -/

section Listings

variable {arg : Arg} {rs : List Rec}

theorem Returns.unique {o : Int} {resid : Nat} {res res' : Result} (h : Returns arg o resid res)
    (h' : Returns arg o resid res') : res = res' := by
  obtain ⟨rounds, hret⟩ := h
  obtain ⟨rounds', hret'⟩ := h'
  exact Option.some.inj ((hret _ (le_max_left rounds rounds')).symm.trans (hret' _ (le_max_right rounds rounds')))

theorem name_le {m : Mem} {ofs : Bool} {o : Nat} (h : Holds ofs m o rs) : ∀ r ∈ rs, r.name.length ≤ 255 := by
  induction rs generalizing o with
  | nil => simp
  | cons r rs ih =>
      intro r' hr'
      rcases List.mem_cons.mp hr' with rfl | hmem
      · rw [← h.1]
        unfold recOf
        split
        · exact Nat.zero_le _
        · rw [dName_length]
          exact dNamlen_le _ _ _
      · exact ih h.2 r' hmem

theorem large_of_le (h : Listable arg rs) {resid : Nat} (hle : maxDirent arg ≤ resid) : Large arg rs resid := by
  refine ⟨lt_of_lt_of_le (by unfold maxDirent genericDirsiz; omega) hle, fun r hr _ => ?_⟩
  exact (genericDirsiz_le (name_le h.holds r hr)).trans hle

/-- Eight fragments are the most that a block can have. -/
theorem fragshift_eight : 3 ≤ 3 := Nat.le_refl 3

/-- Blocks of 4096 bytes, in fragments of 512. -/
def smallFs : Fs := { tinyFs with
  fragshift := 3
  fshift := 9
  fsbtodb := 0
  nindir := 512
  fragshift_le := fragshift_eight
  bshift_le := by decide
  frag_dvd_fpg := by decide
  fsbtodb_le := by decide
  four_le_nindir := by decide
  nindir_le := by decide }

/-- A directory with "." and ".." in its first 512 bytes, nothing in the next seven, and where there are
nine, a file "a" in the last. -/
def dirArg (size : Nat) : Arg where
  fs := smallFs
  ip := { snapshot := false, size, blocks := 9, db := fun _ => 0, ib := fun _ => 0, extb := fun _ => 0 }
  data := fun x =>
    if x < 12 then Direct.bytes false ⟨2, 4, [46]⟩ 12 x
    else if x < 24 then Direct.bytes false ⟨2, 4, [46, 46]⟩ 500 (x - 12)
    else if x < 4096 then Direct.bytes false ⟨0, 0, []⟩ 512 (x % 512)
    else Direct.bytes false ⟨7, 8, [97]⟩ 512 (x % 512)
  ofs := false
  effnlink := 2
  direntOff := 21

def dots : List Rec := [⟨2, 12, 4, [46]⟩, ⟨2, 500, 4, [46, 46]⟩]

theorem listable_dots : Listable (dirArg 512) dots where
  size_eq := rfl
  blocks := by decide
  frag := by decide
  fits := ⟨by decide, by decide, trivial⟩
  holds := ⟨by decide, by decide, trivial⟩
  roomy := ⟨by decide, by decide, trivial⟩

/-- Listings of a well-formed directory are right if and only if it has not been removed and no block
but the first has a buffer that is smaller than a block. -/
theorem readdir_lists_iff (arg : Arg) (rs : List Rec) (h : Listable arg rs) :
    ListsAll arg rs ↔ arg.effnlink ≠ 0 ∧ FullBlocks arg := by
  constructor
  · intro hlists
    refine ⟨fun hlink => ?_, ?_⟩
    · obtain ⟨es, o', hret, -⟩ := hlists.call [] rs rfl _ (large_of_le h (le_refl _))
      have hgone : Returns arg (recsLen []) (maxDirent arg) ⟨0, [], recsLen [], none⟩ := by
        refine ⟨0, fun fuel _ => ?_⟩
        unfold ufsReaddir
        rw [if_neg (by omega), if_pos hlink]
      exact absurd (congrArg Result.eofflag (hret.unique hgone)) (by simp)
    · by_contra hfrag
      obtain ⟨lbn, hlast⟩ := exists_lastFragment hfrag
      have hroom : maxDirent arg ≤ maxDirent arg * ((lbn + 1) * arg.fs.bsize - 0 * arg.fs.bsize) + maxDirent arg + 1 := by
        omega
      obtain ⟨es, o', ⟨rounds, hret⟩, -⟩ := hlists.call [] rs rfl _ (large_of_le h hroom)
      by_cases hlink : arg.effnlink = 0
      · have hgone := hret rounds (le_refl _)
        unfold ufsReaddir at hgone
        rw [if_neg (by omega), if_pos hlink] at hgone
        exact absurd (congrArg Result.eofflag (Option.some.inj hgone)) (by simp)
      · have hgo := hret rounds (le_refl _)
        unfold ufsReaddir at hgo
        rw [if_neg (by omega), if_neg hlink] at hgo
        obtain ⟨s', hloop, hres⟩ := Option.map_eq_some_iff.mp hgo
        have herr := blockLoop_fragment hlast h.frag (Nat.zero_le lbn) (by simp) rfl (by dsimp only; omega) hloop
        have hzero := congrArg Result.error hres
        simp only [herr] at hzero
        exact absurd hzero (by decide)
  · rintro ⟨hlink, hfull⟩
    have hrun : ∀ before after, rs = before ++ after → ∀ es o', Listing arg rs (recsLen before) es o' →
        ∃ mid rest, after = mid ++ rest ∧ o' = recsLen before + recsLen mid ∧ es = entriesOf 0 (recsLen before) mid := by
      intro before after hsplit es o' hlisting
      generalize hstart : recsLen before = o at hlisting ⊢
      -- on the calls: each goes on where the one before has stopped
      induction hlisting generalizing before after with
      | done o => exact ⟨[], after, rfl, by simp, rfl⟩
      | call hlarge hcall hrest ih =>
          subst hstart
          obtain ⟨mid, rest, hmid, hret, -⟩ := readdir_spec h hlink hfull hsplit hlarge
          have heq := hcall.unique hret
          have hes := congrArg Result.out heq
          have ho := Int.natCast_inj.mp (congrArg Result.offset heq)
          dsimp only at hes
          obtain ⟨mid', rest', hrest', ho', hes'⟩ := ih (before ++ mid) rest (by rw [hsplit, hmid, List.append_assoc])
            (by rw [recsLen_append, ho])
          refine ⟨mid ++ mid', rest', by rw [hmid, hrest', List.append_assoc], ?_, ?_⟩
          · rw [ho', ho, recsLen_append, Nat.add_assoc]
          · rw [hes, hes', ho, entriesOf_append]
    refine ⟨fun before after hsplit resid hlarge => ?_, hrun, fun before after hsplit es o' hlisting d hd => ?_⟩
    · obtain ⟨mid, rest, -, hret, hprogress⟩ := readdir_spec h hlink hfull hsplit hlarge
      exact ⟨_, _, hret, hprogress⟩
    · obtain ⟨mid, rest, hmid, -, rfl⟩ := hrun before after hsplit es o' hlisting
      obtain ⟨m, r, rest', rfl, heq⟩ := mem_entriesOf hd
      refine ⟨m, r, rest' ++ rest, by rw [hmid]; simp, ?_⟩
      rw [heq, recsLen_append, recsLen_append, recsLen_cons, recsLen_nil, Nat.add_zero]

/-- A directory of one block lists right. -/
theorem readdir_lists_dots : ListsAll (dirArg 512) dots := by
  refine (readdir_lists_iff (dirArg 512) dots listable_dots).mpr ⟨by decide, fun lbn hpos hlt => ?_⟩
  change lbn * 4096 < 512 at hlt
  omega

def free : Rec := ⟨0, 512, 0, []⟩

/-- The directory with nine times 512 bytes. -/
def nine : List Rec := dots ++ [free, free, free, free, free, free, free, ⟨7, 512, 8, [97]⟩]

theorem listable_nine : Listable (dirArg 4608) nine where
  size_eq := by decide
  blocks := by decide
  frag := by decide
  fits := by simp only [nine, dots, free, List.cons_append, List.nil_append, Fits]; decide
  holds := by
    refine ⟨by decide, by decide, by decide, by decide, by decide, by decide, by decide, by decide, by decide, by decide, ?_⟩
    trivial
  roomy := by simp only [nine, dots, free, List.cons_append, List.nil_append, Roomy]; decide

/-- The file in the fragment at the end is never listed: a call that has got to the fragment does not
come back. -/
theorem readdir_fragment_stuck :
    Listable (dirArg 4608) nine ∧ (∀ fuel, ufsReaddir (dirArg 4608) fuel 4096 1000 = none) ∧
      ¬ ListsAll (dirArg 4608) nine := by
  have hlast : LastFragment (dirArg 4608) 1 := ⟨by decide, by decide, by decide⟩
  have hnone : ∀ fuel, ufsReaddir (dirArg 4608) fuel 4096 1000 = none := by
    intro fuel
    have hstuck := @blockLoop_stuck (dirArg 4608) 4096 1000 fuel 1 ⟨4096, 0, 1000, [], 0⟩ hlast (by decide) 4096
      (by decide) (by decide) (by decide) (by decide) rfl rfl (by decide)
    unfold ufsReaddir
    rw [if_neg (by decide), if_neg (by decide)]
    show (blockLoop (dirArg 4608) 4096 1000 fuel ⟨4096, 0, 1000, [], 0⟩).map _ = none
    rw [hstuck]
    rfl
  refine ⟨listable_nine, hnone, fun hlists => ?_⟩
  obtain ⟨es, o', ⟨rounds, hret⟩, -⟩ := hlists.call (dots ++ [free, free, free, free, free, free, free])
    [⟨7, 512, 8, [97]⟩] rfl 1000 (large_of_le listable_nine (by decide))
  have hgo := hret rounds (le_refl _)
  rw [show recsLen (dots ++ [free, free, free, free, free, free, free]) = 4096 by decide] at hgo
  exact absurd ((hnone rounds).symm.trans hgo) (by simp)

end Listings

end UfsX.Proofs.Readdir
