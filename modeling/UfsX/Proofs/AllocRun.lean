import UfsX.Lib.Run
import UfsX.Proofs.AllocSpec

/-!
# `UfsX.Proofs.AllocRun`: whole histories of allocation calls

Two results over every sequence of calls of the block allocator.

* Consistency is an invariant, and no legal call panics. The one exception is
  a cluster at address 0, which the code takes for "no preference".
* A ledger of the ranges handed out. When every free is carried out, the
  ranges are disjoint, inside their group, made of fragments that were free at
  the start, and the free maps are the initial ones minus the live ranges.

`ffs_blkfree_cg` carries a free out only for a device vnode of type `VCHR` or a
snapshot; for any other type it returns without a word, and the ledger and the
map drift apart.
-/

set_option autoImplicit false

namespace UfsX.Proofs

open UfsX.Lib UfsX.Ffs Relation

/-! ### Calls -/

/-- One call of the block allocator. Addresses are non-negative; `gerr` is the
error of `ffs_getcg`. -/
inductive Op where
  | alloccg (gerr cg bpref size rsize : Nat)
  | fragextend (gerr cg bprev osize nsize : Nat)
  | clusteralloc (gerr cg bpref len : Nat)
  | blkfree (devvp : Vtype) (gerr bno size : Nat)

variable (fs : Fs)

/-- Run a call: the address it returns (0 for `ffs_blkfree_cg`) and the new
state. -/
def Op.exec (s : State) : Op → Except Panic (Nat × State)
  | .alloccg gerr cg bpref size rsize => ffsAlloccg fs s gerr cg bpref size rsize
  | .fragextend gerr cg bprev osize nsize => .ok (ffsFragextend fs s gerr cg bprev osize nsize)
  | .clusteralloc gerr cg bpref len => ffsClusteralloc fs s gerr cg bpref len
  | .blkfree devvp gerr bno size =>
      (ffsBlkfreeCg fs s devvp gerr bno size).map fun s' => (0, s')

/-- What the callers promise: sizes are positive multiples of `fs_fsize` up to
`fs_bsize` (the size searched for may also be a whole block), a fragment that
is extended or freed is in use, a cluster is not empty and the file system has
a cluster summary. -/
def Op.Legal (s : State) : Op → Prop
  | .alloccg _ cg _ size rsize =>
      cg < fs.ncg ∧ ∃ n, 0 < n ∧ n ≤ fs.frag ∧ rsize = n * fs.fsize ∧
        (size = n * fs.fsize ∨ size = fs.bsize)
  | .fragextend _ cg bprev osize nsize =>
      cg = fs.dtog bprev ∧ ∃ o n, osize = o * fs.fsize ∧ nsize = n * fs.fsize ∧ o < n ∧
        n ≤ fs.frag ∧ InUse fs s bprev o
  | .clusteralloc _ cg _ len => cg < fs.ncg ∧ fs.contigsumsize ≠ 0 ∧ 0 < len
  | .blkfree _ _ bno size => ∃ n, size = n * fs.fsize ∧ InUse fs s bno n

/-- One legal call that returns. -/
def Step (s s' : State) : Prop :=
  ∃ (op : Op) (r : Nat), op.Legal fs s ∧ op.exec fs s = .ok (r, s')

variable {fs}

/-! ### Consistency -/

/-- A legal call keeps a consistent file system consistent, and panics only for
a cluster at a free address 0. -/
theorem Op.exec_spec {s : State} (h : FsOk fs s) (op : Op) (hop : op.Legal fs s) :
    (∃ r s', op.exec fs s = .ok (r, s') ∧ FsOk fs s') ∨
      (op.exec fs s = .error .clusterLostBlock ∧ (s.cgs 0).blksfree.isset 0 = true) := by
  have hres : ∀ {cg n : Nat} {r : Nat × State}, AllocResult fs s cg n r → FsOk fs r.2 := by
    intro cg n r hr
    rcases hr with ⟨-, hok, -⟩ | ⟨p, -, halloc, -⟩
    · exact hok
    · exact halloc.ok
  cases op with
  | alloccg gerr cg bpref size rsize =>
      obtain ⟨hcg, n, hn, hnf, rfl, hsize⟩ := hop
      obtain ⟨r, heq, hr⟩ := ffsAlloccg_spec gerr bpref h hcg hn hnf hsize
      exact Or.inl ⟨r.1, r.2, heq, hres hr⟩
  | fragextend gerr cg bprev osize nsize =>
      obtain ⟨rfl, o, n, rfl, rfl, hon, hnf, huse⟩ := hop
      refine Or.inl ⟨_, _, rfl, ?_⟩
      have hpos := huse.pos
      rcases ffsFragextend_spec gerr h huse.cg hpos hon hnf (huse.used (o - 1) (by omega)) _ rfl
        with ⟨-, hok, -⟩ | ⟨-, halloc, -⟩
      · exact hok
      · exact halloc.ok
  | clusteralloc gerr cg bpref len =>
      obtain ⟨hcg, hc, hlen⟩ := hop
      rcases ffsClusteralloc_spec gerr bpref h hcg hc hlen with ⟨r, heq, hr⟩ | hlost
      · exact Or.inl ⟨r.1, r.2, heq, hres hr⟩
      · exact Or.inr hlost
  | blkfree devvp gerr bno size =>
      obtain ⟨n, rfl, huse⟩ := hop
      left
      by_cases hdone : (devvp = .vreg ∨ devvp = .vchr) ∧ gerr = 0
      · obtain ⟨hdev, rfl⟩ := hdone
        obtain ⟨s', heq, hfreed⟩ := ffsBlkfreeCg_freed devvp h huse hdev
        exact ⟨0, s', by rw [Op.exec, heq]; rfl, hfreed.ok⟩
      · have hskip := ffsBlkfreeCg_skipped fs s devvp gerr bno (n * fs.fsize) (by tauto)
        exact ⟨0, s, by rw [Op.exec, hskip]; rfl, h⟩

theorem Step.fsOk {s s' : State} (h : FsOk fs s) (hst : Step fs s s') : FsOk fs s' := by
  obtain ⟨op, r, hop, heq⟩ := hst
  rcases op.exec_spec h hop with ⟨r', t, heq', hok⟩ | ⟨herr, -⟩
  · rw [heq] at heq'
    obtain ⟨-, rfl⟩ := Prod.mk.inj (Except.ok.inj heq')
    exact hok
  · rw [heq] at herr
    exact absurd herr (by simp)

/-- From a consistent file system, every state that a sequence of legal calls
reaches is consistent; and in every such state the next legal call returns,
unless it is a cluster allocation while fragment 0 of group 0 is free. -/
theorem fsOk_of_run {s s' : State} (h : FsOk fs s) (hrun : ReflTransGen (Step fs) s s') :
    FsOk fs s' ∧ ∀ op : Op, op.Legal fs s' →
      (∃ r t, op.exec fs s' = .ok (r, t) ∧ FsOk fs t) ∨
        (op.exec fs s' = .error .clusterLostBlock ∧ (s'.cgs 0).blksfree.isset 0 = true) := by
  have hs' := invariant_of_run (FsOk fs) (fun ha hst => Step.fsOk ha hst) h hrun
  exact ⟨hs', fun op hop => op.exec_spec hs' hop⟩

/-- A block is allocated in `tinyState`, and the result is consistent. -/
theorem fsOk_of_run_tinyState :
    ∃ p s', ffsAlloccg tinyFs tinyState 0 0 0 16384 16384 = .ok (p, s') ∧
      ReflTransGen (Step tinyFs) tinyState s' ∧ FsOk tinyFs s' := by
  obtain ⟨p, s', heq, -⟩ := ffsAlloccg_block 0 fsOk_tinyState (by decide) nbfree_tinyState
  have hrun : ReflTransGen (Step tinyFs) tinyState s' := ReflTransGen.single
    ⟨.alloccg 0 0 0 16384 16384, _, ⟨by decide, 2, by decide, by decide, rfl, Or.inl rfl⟩, heq⟩
  exact ⟨_, s', heq, hrun, (fsOk_of_run fsOk_tinyState hrun).1⟩

/-! ### The ledger -/

/-- A range handed out: `n` fragments from address `a` on, charged to group
`cg`. -/
structure Range where
  cg : Nat
  a : Nat
  n : Nat
  deriving DecidableEq, Repr

namespace Range

/-- Address `x` lies in the range. -/
def Has (r : Range) (x : Nat) : Prop := r.a ≤ x ∧ x < r.a + r.n

/-- Two ranges have no fragment in common. -/
def Disjoint (r t : Range) : Prop := r.a + r.n ≤ t.a ∨ t.a + t.n ≤ r.a

theorem Disjoint.symm {r t : Range} (h : r.Disjoint t) : t.Disjoint r := Or.symm h

theorem Disjoint.not_has {r t : Range} (h : r.Disjoint t) {x : Nat} (hx : r.Has x) :
    ¬ t.Has x := by
  unfold Disjoint at h
  unfold Has at hx ⊢
  omega

/-- Non-empty ranges without a common fragment are disjoint. -/
theorem disjoint_of_not_has {r t : Range} (hr : 0 < r.n) (ht : 0 < t.n)
    (h : ∀ x, r.Has x → ¬ t.Has x) : r.Disjoint t := by
  unfold Disjoint
  by_contra hno
  exact h (max r.a t.a) (by unfold Has; omega) (by unfold Has; omega)

end Range

/-- Fragment `x` of the file system is free. -/
def freeAt (fs : Fs) (s : State) (x : Nat) : Bool :=
  (s.cgs (fs.dtog x)).blksfree.isset (fs.dtogd x)

theorem boot_tinyState : freeAt tinyFs tinyState 0 = false := by
  unfold freeAt
  show (Bitmap.ofFun fun i => decide (2 ≤ i ∧ i < 16)).isset 0 = false
  rw [Bitmap.isset_ofFun]
  rfl

/-- The `len` blocks of a cluster at `a`, the units in which
`ffs_blkfree_cg` takes it back. -/
def clusterRanges (fs : Fs) (cg a len : Nat) : List Range :=
  (List.range len).map fun i => ⟨cg, a + i * fs.frag, fs.frag⟩

/-- One call together with the ledger of live ranges. An allocation that returns
an address enters its range, an extension replaces the range it extends, a free
takes its range out. `P` restricts the vnode type and the `ffs_getcg` error of
the frees. -/
inductive LedgerStep (fs : Fs) (P : Vtype → Nat → Prop) :
    State × List Range → State × List Range → Prop
  | alloccg {s s' : State} {l : List Range} {gerr cg bpref size n r : Nat} (hcg : cg < fs.ncg)
      (hn : 0 < n) (hnf : n ≤ fs.frag) (hsize : size = n * fs.fsize ∨ size = fs.bsize)
      (heq : ffsAlloccg fs s gerr cg bpref size (n * fs.fsize) = .ok (r, s')) :
      LedgerStep fs P (s, l) (s', if r = 0 then l else ⟨cg, r, n⟩ :: l)
  | fragextend {s s' : State} {l : List Range} {gerr cg a o n r : Nat} (hmem : ⟨cg, a, o⟩ ∈ l)
      (hon : o < n) (hnf : n ≤ fs.frag)
      (heq : ffsFragextend fs s gerr cg a (o * fs.fsize) (n * fs.fsize) = (r, s')) :
      LedgerStep fs P (s, l) (s', if r = 0 then l else ⟨cg, r, n⟩ :: l.erase ⟨cg, a, o⟩)
  | clusteralloc {s s' : State} {l : List Range} {gerr cg bpref len r : Nat} (hcg : cg < fs.ncg)
      (hc : fs.contigsumsize ≠ 0) (hlen : 0 < len)
      (heq : ffsClusteralloc fs s gerr cg bpref len = .ok (r, s')) :
      LedgerStep fs P (s, l) (s', if r = 0 then l else clusterRanges fs cg r len ++ l)
  | blkfree {s s' : State} {l : List Range} {devvp : Vtype} {gerr : Nat} {r : Range}
      (hmem : r ∈ l) (hP : P devvp gerr)
      (heq : ffsBlkfreeCg fs s devvp gerr r.a (r.n * fs.fsize) = .ok s') :
      LedgerStep fs P (s, l) (s', l.erase r)

/-- The live ranges `l` account for the difference between the initial maps and
the current ones. -/
structure Ledger (fs : Fs) (s₀ s : State) (l : List Range) : Prop where
  disjoint : l.Pairwise Range.Disjoint
  inside : ∀ r ∈ l, r.cg < fs.ncg ∧ 0 < r.n ∧ fs.cgbase r.cg ≤ r.a ∧
    r.a + r.n ≤ fs.cgbase r.cg + (s₀.cgs r.cg).ndblk
  block : ∀ r ∈ l, r.a % fs.frag + r.n ≤ fs.frag
  fresh : ∀ r ∈ l, ∀ x, r.Has x → freeAt fs s₀ x = true
  map : ∀ x, fs.dtog x < fs.ncg →
    (freeAt fs s x = true ↔ freeAt fs s₀ x = true ∧ ∀ r ∈ l, ¬ r.Has x)

/-- The ledger, with what it needs to go on: consistency, and group sizes that
do not change. -/
structure LedgerInv (fs : Fs) (s₀ s : State) (l : List Range) : Prop extends Ledger fs s₀ s l where
  ok : FsOk fs s
  ndblk : ∀ g, (s.cgs g).ndblk = (s₀.cgs g).ndblk

/-! ### Addresses -/

/-- An address in the span of group `cg` belongs to it. -/
theorem dtog_of_span {cg x : Nat} (hlo : fs.cgbase cg ≤ x) (hhi : x < fs.cgbase cg + fs.fpg) :
    fs.dtog x = cg ∧ fs.dtogd x = x - fs.cgbase cg := by
  obtain ⟨i, rfl⟩ : ∃ i, x = fs.cgbase cg + i := ⟨x - fs.cgbase cg, by omega⟩
  unfold Fs.dtog Fs.dtogd
  rw [Nat.add_sub_cancel_left, Fs.cgbase, Nat.mul_add_div fs.fpg_pos, Nat.mul_add_mod,
    Nat.div_eq_of_lt (by omega), Nat.mod_eq_of_lt (by omega)]
  exact ⟨rfl, rfl⟩

/-- Seen by address, a range of offsets of group `cg`. -/
theorem mem_span_iff {cg p n x : Nat} (hpn : p + n ≤ fs.fpg) :
    (fs.cgbase cg + p ≤ x ∧ x < fs.cgbase cg + p + n) ↔
      fs.dtog x = cg ∧ p ≤ fs.dtogd x ∧ fs.dtogd x < p + n := by
  constructor
  · rintro ⟨hlo, hhi⟩
    obtain ⟨h1, h2⟩ := dtog_of_span (show fs.cgbase cg ≤ x from by omega) (by omega)
    exact ⟨h1, by omega, by omega⟩
  · rintro ⟨rfl, hlo, hhi⟩
    have := address_eq fs x
    omega

theorem Allocd.freeAt {s s' : State} {cg p n : Nat} (h : Allocd fs s s' cg p n)
    (hpn : p + n ≤ fs.fpg) (x : Nat) :
    Proofs.freeAt fs s' x = true ↔ Proofs.freeAt fs s x = true ∧
      ¬ (fs.cgbase cg + p ≤ x ∧ x < fs.cgbase cg + p + n) := by
  rw [mem_span_iff hpn]
  unfold Proofs.freeAt
  by_cases hx : fs.dtog x = cg
  · rw [hx, h.took, Bool.and_eq_true, Bool.not_eq_true', decide_eq_false_iff_not]
    tauto
  · rw [h.other _ hx]
    tauto

theorem Freed.freeAt {s s' : State} {cg p n : Nat} (h : Freed fs s s' cg p n)
    (hpn : p + n ≤ fs.fpg) (x : Nat) :
    Proofs.freeAt fs s' x = true ↔ Proofs.freeAt fs s x = true ∨
      (fs.cgbase cg + p ≤ x ∧ x < fs.cgbase cg + p + n) := by
  rw [mem_span_iff hpn]
  unfold Proofs.freeAt
  by_cases hx : fs.dtog x = cg
  · rw [hx, h.gave, Bool.or_eq_true, decide_eq_true_iff]
    tauto
  · rw [h.other _ hx]
    tauto

/-! ### One step of the ledger -/

section Steps

variable {s₀ s s' : State} {l : List Range}

theorem LedgerInv.unmoved (h : LedgerInv fs s₀ s l) (hok : FsOk fs s') (hun : Unmoved s s') :
    LedgerInv fs s₀ s' l := by
  refine ⟨⟨h.disjoint, h.inside, h.block, h.fresh, fun x hx => ?_⟩, hok, fun g => ?_⟩
  · have hsame : freeAt fs s' x = freeAt fs s x := by
      unfold freeAt
      rw [(hun _).1]
    rw [hsame]
    exact h.map x hx
  · rw [(hun g).2, h.ndblk]

/-- Entering the ranges that an allocation was cut into. -/
theorem LedgerInv.grant (h : LedgerInv fs s₀ s l) {cg p n : Nat} (hcg : cg < fs.ncg)
    (halloc : Allocd fs s s' cg p n) (new : List Range)
    (hdisj : new.Pairwise Range.Disjoint)
    (hcover : ∀ x, (∃ r ∈ new, r.Has x) ↔ fs.cgbase cg + p ≤ x ∧ x < fs.cgbase cg + p + n)
    (hin : ∀ r ∈ new, r.cg = cg ∧ 0 < r.n ∧ r.a % fs.frag + r.n ≤ fs.frag) :
    LedgerInv fs s₀ s' (new ++ l) := by
  have hle := halloc.le
  have hfpg := (h.ok.cg cg hcg).layout.ndblk_le
  have hspan := fun x => halloc.freeAt (show p + n ≤ fs.fpg from by omega) x
  -- A fragment of a new range was free, so it is in no live range.
  have hnew : ∀ r ∈ new, ∀ x, r.Has x →
      fs.dtog x = cg ∧ freeAt fs s x = true := by
    intro r hr x hx
    have hx' := (hcover x).mp ⟨r, hr, hx⟩
    obtain ⟨hd, hlo, hhi⟩ := (mem_span_iff (show p + n ≤ fs.fpg from by omega)).mp hx'
    refine ⟨hd, ?_⟩
    unfold freeAt
    rw [hd]
    exact halloc.free _ hlo hhi
  refine ⟨⟨?_, ?_, ?_, ?_, fun x hx => ?_⟩, halloc.ok, fun g => ?_⟩
  · rw [List.pairwise_append]
    refine ⟨hdisj, h.disjoint, fun r hr t ht => ?_⟩
    refine Range.disjoint_of_not_has (hin r hr).2.1 (h.inside t ht).2.1 fun x hx => ?_
    obtain ⟨hd, hfree⟩ := hnew r hr x hx
    exact ((h.map x (by rw [hd]; exact hcg)).mp hfree).2 t ht
  · intro r hr
    rcases List.mem_append.mp hr with hr | hr
    · obtain ⟨hrcg, hrn, -⟩ := hin r hr
      have hfirst := (hcover r.a).mp ⟨r, hr, by unfold Range.Has; omega⟩
      have hlast := (hcover (r.a + r.n - 1)).mp ⟨r, hr, by unfold Range.Has; omega⟩
      rw [hrcg, ← h.ndblk]
      exact ⟨hcg, hrn, by omega, by omega⟩
    · exact h.inside r hr
  · intro r hr
    rcases List.mem_append.mp hr with hr | hr
    · exact (hin r hr).2.2
    · exact h.block r hr
  · intro r hr x hx
    rcases List.mem_append.mp hr with hr | hr
    · obtain ⟨hd, hfree⟩ := hnew r hr x hx
      exact ((h.map x (by rw [hd]; exact hcg)).mp hfree).1
    · exact h.fresh r hr x hx
  · rw [hspan x, h.map x hx, ← hcover x]
    constructor
    · rintro ⟨⟨h0, hl⟩, hno⟩
      refine ⟨h0, fun r hr hx' => ?_⟩
      rcases List.mem_append.mp hr with hr | hr
      · exact hno ⟨r, hr, hx'⟩
      · exact hl r hr hx'
    · rintro ⟨h0, hall⟩
      refine ⟨⟨h0, fun r hr => hall r (List.mem_append_right _ hr)⟩, ?_⟩
      rintro ⟨r, hr, hx'⟩
      exact hall r (List.mem_append_left _ hr) hx'
  · rw [halloc.ndblk, h.ndblk]

/-- The range of a single allocation. -/
theorem LedgerInv.grantOne (h : LedgerInv fs s₀ s l) {cg p n : Nat} (hcg : cg < fs.ncg)
    (hn : 0 < n) (halloc : Allocd fs s s' cg p n)
    (hblk : (fs.cgbase cg + p) % fs.frag + n ≤ fs.frag) :
    LedgerInv fs s₀ s' (⟨cg, fs.cgbase cg + p, n⟩ :: l) := by
  refine h.grant hcg halloc [⟨cg, fs.cgbase cg + p, n⟩] (List.pairwise_singleton _ _)
    (fun x => ?_) (fun r hr => ?_)
  · simp [Range.Has]
  · rw [List.mem_singleton] at hr
    subst hr
    exact ⟨rfl, hn, hblk⟩

/-- Offsets and addresses have the same position in their block. -/
theorem cgbase_add_mod (cg p : Nat) : (fs.cgbase cg + p) % fs.frag = p % fs.frag := by
  have hdvd : fs.frag ∣ fs.cgbase cg := Dvd.dvd.mul_right fs.frag_dvd_fpg cg
  rw [Nat.add_mod, Nat.mod_eq_zero_of_dvd hdvd, Nat.zero_add, Nat.mod_mod]

/-- A live range is in use. -/
theorem LedgerInv.inUse (h : LedgerInv fs s₀ s l) {r : Range} (hr : r ∈ l) :
    InUse fs s r.a r.n ∧ fs.dtog r.a = r.cg := by
  obtain ⟨hcg, hn, hlo, hhi⟩ := h.inside r hr
  have hnd := h.ndblk r.cg
  have hfpg := (h.ok.cg r.cg hcg).layout.ndblk_le
  obtain ⟨hd, hd'⟩ := dtog_of_span hlo (by omega)
  refine ⟨⟨hn, h.block r hr, by rw [hd]; exact hcg, by rw [hd, hd']; omega, fun i hi => ?_⟩, hd⟩
  have hx : r.Has (r.a + i) := by unfold Range.Has; omega
  obtain ⟨hxd, hxd'⟩ := dtog_of_span (show fs.cgbase r.cg ≤ r.a + i from by omega)
    (by omega)
  have hnot : ¬ freeAt fs s (r.a + i) = true := fun hfree =>
    ((h.map (r.a + i) (by rw [hxd]; exact hcg)).mp hfree).2 r hr hx
  unfold freeAt at hnot
  rw [hxd, hxd'] at hnot
  rw [hd, hd', show r.a - fs.cgbase r.cg + i = r.a + i - fs.cgbase r.cg from by omega]
  exact Bool.eq_false_iff.mpr hnot

/-- A live range is disjoint from the others. -/
theorem Ledger.disjoint_erase (h : Ledger fs s₀ s l) {r : Range} (hr : r ∈ l) :
    ∀ t ∈ l.erase r, r.Disjoint t := by
  have hperm := (List.perm_cons_erase hr).pairwise_iff (fun h => Range.Disjoint.symm h) |>.mp
    h.disjoint
  exact (List.pairwise_cons.mp hperm).1

/-- Address `x` is in no live range exactly when it is in none of the others
and not in `r`. -/
theorem forall_not_has_iff {r : Range} (hr : r ∈ l) (x : Nat) :
    (∀ t ∈ l, ¬ t.Has x) ↔ ¬ r.Has x ∧ ∀ t ∈ l.erase r, ¬ t.Has x := by
  rw [← List.forall_mem_cons (p := fun t : Range => ¬ t.Has x)]
  exact ⟨fun h t ht => h t ((List.perm_cons_erase hr).mem_iff.mpr ht),
    fun h t ht => h t ((List.perm_cons_erase hr).mem_iff.mp ht)⟩

/-- Taking a range out of the ledger when it was freed. -/
theorem LedgerInv.release (h : LedgerInv fs s₀ s l) {r : Range} (hr : r ∈ l)
    (hfreed : Freed fs s s' (fs.dtog r.a) (fs.dtogd r.a) r.n) :
    LedgerInv fs s₀ s' (l.erase r) := by
  have huse := (h.inUse hr).1
  have hfpg := (h.ok.cg _ huse.cg).layout.ndblk_le
  have hle := huse.le
  have hsub := List.erase_sublist (a := r) (l := l)
  refine ⟨⟨h.disjoint.sublist hsub, fun t ht => h.inside t (hsub.subset ht),
    fun t ht => h.block t (hsub.subset ht), fun t ht => h.fresh t (hsub.subset ht),
    fun x hx => ?_⟩, hfreed.ok, fun g => by rw [hfreed.ndblk, h.ndblk]⟩
  have hspan : (fs.cgbase (fs.dtog r.a) + fs.dtogd r.a ≤ x ∧
      x < fs.cgbase (fs.dtog r.a) + fs.dtogd r.a + r.n) ↔ r.Has x := by
    rw [address_eq]
    rfl
  rw [hfreed.freeAt (by omega) x, hspan, h.map x hx, forall_not_has_iff hr]
  constructor
  · rintro (⟨h0, -, hall⟩ | hin)
    · exact ⟨h0, hall⟩
    · exact ⟨h.fresh r hr x hin, fun t ht => (h.disjoint_erase hr t ht).not_has hin⟩
  · rintro ⟨h0, hall⟩
    by_cases hin : r.Has x
    · exact Or.inr hin
    · exact Or.inl ⟨h0, hin, hall⟩

/-- Entering the piece that a live range grew by, as part of that range. -/
theorem LedgerInv.extend (h : LedgerInv fs s₀ s l) {cg a o n : Nat} (hr : ⟨cg, a, o⟩ ∈ l)
    (hon : o < n) (hblk : a % fs.frag + n ≤ fs.frag)
    (halloc : Allocd fs s s' cg (fs.dtogd a + o) (n - o)) :
    LedgerInv fs s₀ s' (⟨cg, a, n⟩ :: l.erase ⟨cg, a, o⟩) := by
  obtain ⟨hcg, ho, hlo, hhi⟩ := h.inside _ hr
  have hd := (h.inUse hr).2
  have haddr := address_eq fs a
  simp only at hcg ho hlo hhi hd
  rw [hd] at haddr
  have hpiece : fs.cgbase cg + (fs.dtogd a + o) = a + o := by omega
  have hmod : (fs.cgbase cg + (fs.dtogd a + o)) % fs.frag + (n - o) ≤ fs.frag := by
    rw [hpiece, Nat.add_mod, Nat.mod_eq_of_lt (show o < fs.frag from by omega),
      Nat.mod_eq_of_lt (show a % fs.frag + o < fs.frag from by omega)]
    omega
  -- The piece is entered on its own first, and then joined to its range.
  have hg := h.grantOne hcg (show 0 < n - o from by omega) halloc hmod
  rw [hpiece] at hg
  have hhas : ∀ x, Range.Has ⟨cg, a, n⟩ x ↔ Range.Has ⟨cg, a + o, n - o⟩ x ∨
      Range.Has ⟨cg, a, o⟩ x := by
    intro x
    simp only [Range.Has]
    omega
  have hpair := List.pairwise_cons.mp hg.disjoint
  have hsub := List.erase_sublist (a := (⟨cg, a, o⟩ : Range)) (l := l)
  refine ⟨⟨List.pairwise_cons.mpr ⟨fun t ht => ?_, hpair.2.sublist hsub⟩, ?_, ?_, ?_,
    fun x hx => ?_⟩, hg.ok, hg.ndblk⟩
  · have h1 := hpair.1 t (hsub.subset ht)
    have h2 := h.disjoint_erase hr t ht
    simp only [Range.Disjoint] at h1 h2 ⊢
    have h3 := (h.inside t (hsub.subset ht)).2.1
    omega
  · intro t ht
    rcases List.mem_cons.mp ht with rfl | ht
    · obtain ⟨-, -, -, h4⟩ := hg.inside _ (List.mem_cons_self)
      simp only at h4
      exact ⟨hcg, show 0 < n from by omega, hlo,
        show a + n ≤ fs.cgbase cg + (s₀.cgs cg).ndblk from by omega⟩
    · exact h.inside t (hsub.subset ht)
  · intro t ht
    rcases List.mem_cons.mp ht with rfl | ht
    · exact hblk
    · exact h.block t (hsub.subset ht)
  · intro t ht x hx
    rcases List.mem_cons.mp ht with rfl | ht
    · rcases (hhas x).mp hx with hx | hx
      · exact hg.fresh _ (List.mem_cons_self) x hx
      · exact h.fresh _ hr x hx
    · exact h.fresh t (hsub.subset ht) x hx
  · rw [hg.map x hx, List.forall_mem_cons, List.forall_mem_cons, forall_not_has_iff hr, hhas x]
    tauto

end Steps

/-! ### Runs of the ledger -/

/-- The blocks of a cluster are disjoint. -/
theorem clusterRanges_disjoint (cg a len : Nat) :
    (clusterRanges fs cg a len).Pairwise Range.Disjoint := by
  unfold clusterRanges
  rw [List.pairwise_map]
  refine List.pairwise_lt_range.imp fun {i j} hij => Or.inl ?_
  have hmul : (i + 1) * fs.frag ≤ j * fs.frag := Nat.mul_le_mul_right _ hij
  rw [Nat.add_mul, Nat.one_mul] at hmul
  simp only
  omega

/-- The blocks of a cluster cover it. -/
theorem clusterRanges_cover (cg a len x : Nat) :
    (∃ r ∈ clusterRanges fs cg a len, r.Has x) ↔ a ≤ x ∧ x < a + len * fs.frag := by
  have hpos := fs.frag_pos
  simp only [clusterRanges, List.mem_map, List.mem_range, exists_exists_and_eq_and, Range.Has]
  constructor
  · rintro ⟨i, hi, hlo, hhi⟩
    have hmul : (i + 1) * fs.frag ≤ len * fs.frag := Nat.mul_le_mul_right _ hi
    rw [Nat.add_mul, Nat.one_mul] at hmul
    omega
  · rintro ⟨hlo, hhi⟩
    refine ⟨(x - a) / fs.frag, ?_, ?_, ?_⟩
    · rw [Nat.div_lt_iff_lt_mul hpos]
      omega
    · have := Nat.div_mul_le_self (x - a) fs.frag
      omega
    · have hmod := Nat.mod_lt (x - a) hpos
      have hsplit := Nat.div_add_mod' (x - a) fs.frag
      omega

/-- A free that `ffs_blkfree_cg` carries out: through a disk device or a
snapshot, with the cylinder group readable. -/
def Effective (devvp : Vtype) (gerr : Nat) : Prop :=
  (devvp = .vreg ∨ devvp = .vchr) ∧ gerr = 0

theorem LedgerInv.step {s₀ s s' : State} {l l' : List Range} (hboot : freeAt fs s₀ 0 = false)
    (h : LedgerInv fs s₀ s l) (hst : LedgerStep fs Effective (s, l) (s', l')) :
    LedgerInv fs s₀ s' l' := by
  -- Address 0 was not free at the start, so it is never handed out.
  have hboot' : freeAt fs s 0 = false := by
    rw [Bool.eq_false_iff]
    intro hfree
    have h0 := ((h.map 0 (by rw [Fs.dtog, Nat.zero_div]; exact fs.ncg_pos)).mp hfree).1
    rw [hboot] at h0
    exact absurd h0 (by decide)
  have hnz : ∀ {cg p n : Nat} {t : State}, 0 < n → cg < fs.ncg → Allocd fs s t cg p n →
      fs.cgbase cg + p ≠ 0 := by
    intro cg p n t hn hcg halloc h0
    have hle := halloc.le
    have hfpg := (h.ok.cg cg hcg).layout.ndblk_le
    obtain ⟨hd, hd'⟩ := (mem_span_iff (p := p) (n := n) (x := 0) (by omega)).mp
      (show fs.cgbase cg + p ≤ 0 ∧ 0 < fs.cgbase cg + p + n from by omega)
    unfold freeAt at hboot'
    rw [hd, halloc.free _ hd'.1 hd'.2] at hboot'
    exact absurd hboot' (by decide)
  cases hst with
  | alloccg hcg hn hnf hsize heq =>
      rename_i gerr cg bpref size n r
      obtain ⟨res, heq', hres⟩ := ffsAlloccg_spec gerr bpref h.ok hcg hn hnf hsize
      rw [heq] at heq'
      obtain rfl := Except.ok.inj heq'
      rcases hres with ⟨h0, hok, hun⟩ | ⟨p, hp, halloc, hblk⟩
      · rw [if_pos h0]
        exact h.unmoved hok hun
      · simp only at hp
        rw [if_neg (by rw [hp]; exact hnz hn hcg halloc), hp]
        exact h.grantOne hcg hn halloc (by rw [cgbase_add_mod]; omega)
  | fragextend hmem hon hnf heq =>
      rename_i gerr cg a o n r
      obtain ⟨huse, hd⟩ := h.inUse hmem
      have ho := huse.pos
      simp only at huse hd ho
      rcases ffsFragextend_spec gerr h.ok (h.inside _ hmem).1 ho hon hnf
        (by rw [← hd]; exact huse.used (o - 1) (by omega)) _ heq
        with ⟨h0, hok, hun⟩ | ⟨hr, halloc, hblk⟩
      · rw [if_pos h0]
        exact h.unmoved hok hun
      · simp only at hr
        have ha : a ≠ 0 := by
          rintro rfl
          have hfresh := h.fresh _ hmem 0 (by unfold Range.Has; simp only; omega)
          rw [hboot] at hfresh
          exact absurd hfresh (by decide)
        rw [hr, if_neg ha]
        exact h.extend hmem hon hblk halloc
  | clusteralloc hcg hc hlen heq =>
      rename_i gerr cg bpref len r
      have hpos : 0 < len * fs.frag := Nat.mul_pos hlen fs.frag_pos
      rcases ffsClusteralloc_spec gerr bpref h.ok hcg hc hlen with ⟨res, heq', hres⟩ | ⟨herr, -⟩
      · rw [heq] at heq'
        obtain rfl := Except.ok.inj heq'
        rcases hres with ⟨h0, hok, hun⟩ | ⟨p, hp, halloc, hblk⟩
        · rw [if_pos h0]
          exact h.unmoved hok hun
        · simp only at hp
          rw [if_neg (by rw [hp]; exact hnz hpos hcg halloc), hp]
          refine h.grant hcg halloc _ (clusterRanges_disjoint _ _ _)
            (fun x => clusterRanges_cover _ _ _ x) (fun r hr => ?_)
          obtain ⟨i, -, rfl⟩ := List.mem_map.mp hr
          have hle : fs.frag ≤ len * fs.frag := Nat.le_mul_of_pos_left _ hlen
          refine ⟨rfl, fs.frag_pos, ?_⟩
          show (fs.cgbase cg + p + i * fs.frag) % fs.frag + fs.frag ≤ fs.frag
          rw [Nat.add_mul_mod_self_right, cgbase_add_mod]
          omega
      · rw [heq] at herr
        exact absurd herr (by simp)
  | blkfree hmem hP heq =>
      rename_i devvp gerr r
      obtain ⟨hdev, rfl⟩ := hP
      obtain ⟨t, heq', hfreed⟩ := ffsBlkfreeCg_freed devvp h.ok (h.inUse hmem).1 hdev
      rw [heq] at heq'
      obtain rfl := Except.ok.inj heq'
      exact h.release hmem hfreed

theorem LedgerInv.init {s₀ : State} (h : FsOk fs s₀) : LedgerInv fs s₀ s₀ [] :=
  ⟨⟨List.Pairwise.nil, fun _ hr => absurd hr (List.not_mem_nil),
    fun _ hr => absurd hr (List.not_mem_nil), fun _ hr => absurd hr (List.not_mem_nil),
    fun _ _ => ⟨fun hx => ⟨hx, fun _ hr => absurd hr (List.not_mem_nil)⟩, fun hx => hx.1⟩⟩,
    h, fun _ => rfl⟩

/-- A block can be allocated from a group that has a free one, and is no longer
free then. -/
theorem exists_alloc_step {s₀ : State} (P : Vtype → Nat → Prop) (h : FsOk fs s₀)
    (hboot : freeAt fs s₀ 0 = false) {cg : Nat} (hcg : cg < fs.ncg)
    (hne : (s₀.cgs cg).cs.nbfree ≠ 0) :
    ∃ s r, LedgerStep fs P (s₀, []) (s, [r]) ∧ fs.dtog r.a < fs.ncg ∧
      freeAt fs s₀ r.a = true ∧ freeAt fs s r.a = false := by
  obtain ⟨p, s, heq, halloc⟩ := ffsAlloccg_block 0 h hcg hne
  have hpos := fs.frag_pos
  have hle := halloc.le
  have hfpg := (h.cg cg hcg).layout.ndblk_le
  have hspan := halloc.freeAt (show p + fs.frag ≤ fs.fpg from by omega) (fs.cgbase cg + p)
  obtain ⟨hd, hd'⟩ := dtog_of_span (show fs.cgbase cg ≤ fs.cgbase cg + p from by omega) (by omega)
  have hfree : freeAt fs s₀ (fs.cgbase cg + p) = true := by
    unfold freeAt
    rw [hd, hd', Nat.add_sub_cancel_left]
    exact halloc.free p (Nat.le_refl _) (by omega)
  have hr : fs.cgbase cg + p ≠ 0 := by
    intro h0
    rw [h0, hboot] at hfree
    exact absurd hfree (by decide)
  have heq' : ffsAlloccg fs s₀ 0 cg 0 fs.bsize (fs.frag * fs.fsize)
      = .ok (fs.cgbase cg + p, s) := by
    rw [← fs.bsize_eq]
    exact heq
  refine ⟨s, ⟨cg, fs.cgbase cg + p, fs.frag⟩, ?_, by rw [hd]; exact hcg, hfree, ?_⟩
  · have hstep := LedgerStep.alloccg (P := P) (l := []) hcg hpos (Nat.le_refl _) (Or.inr rfl) heq'
    rwa [if_neg hr] at hstep
  · rw [Bool.eq_false_iff]
    exact fun hfree' => (hspan.mp hfree').2 ⟨Nat.le_refl _, by omega⟩

/-- In every run whose frees are all carried out, from a consistent file system
whose fragment 0 (the boot block) is in use: the live ranges are disjoint, each
is inside one block of the group it was charged to, none has a fragment that
was not free at the start, and the free fragments are the initial ones minus
the live ranges. -/
theorem ledger_of_run {s₀ s : State} {l : List Range} (h : FsOk fs s₀)
    (hboot : freeAt fs s₀ 0 = false)
    (hrun : ReflTransGen (LedgerStep fs Effective) (s₀, []) (s, l)) : Ledger fs s₀ s l := by
  have hinv := invariant_of_run (fun q : State × List Range => LedgerInv fs s₀ q.1 q.2)
    (fun ha hst => LedgerInv.step hboot ha hst) (LedgerInv.init h) hrun
  exact hinv.toLedger

/-- A block allocated in `tinyState` and freed through the disk device. -/
theorem ledger_of_run_tinyState :
    ∃ s, ReflTransGen (LedgerStep tinyFs Effective) (tinyState, []) (s, []) ∧
      Ledger tinyFs tinyState s [] := by
  obtain ⟨s, r, hst, -⟩ := exists_alloc_step Effective fsOk_tinyState boot_tinyState
    (show 0 < tinyFs.ncg from by decide) nbfree_tinyState
  have hinv := LedgerInv.step boot_tinyState (LedgerInv.init fsOk_tinyState) hst
  obtain ⟨s', heq, -⟩ := ffsBlkfreeCg_freed .vchr hinv.ok
    (hinv.inUse (List.mem_singleton_self r)).1 (Or.inr rfl)
  have hfree : LedgerStep tinyFs Effective (s, [r]) (s', []) := by
    have hstep := LedgerStep.blkfree (P := Effective) (List.mem_singleton_self r)
      ⟨Or.inr rfl, rfl⟩ heq
    rwa [List.erase_cons_head] at hstep
  have hrun := (ReflTransGen.single hst).tail hfree
  exact ⟨s', hrun, ledger_of_run fsOk_tinyState boot_tinyState hrun⟩

/-- Freed through a vnode of type `VBLK`, a block allocated in `tinyState` is in
no live range and still not free. -/
theorem not_ledger_of_run_vblk :
    ¬ ∀ (fs : Fs) (s₀ s : State) (l : List Range), FsOk fs s₀ → freeAt fs s₀ 0 = false →
      ReflTransGen (LedgerStep fs fun devvp gerr => devvp = .vblk ∧ gerr = 0) (s₀, []) (s, l) →
      Ledger fs s₀ s l := by
  intro hall
  obtain ⟨s, r, hst, hcg, hfree, hused⟩ := exists_alloc_step
    (fun devvp gerr => devvp = .vblk ∧ gerr = 0) fsOk_tinyState boot_tinyState
    (show 0 < tinyFs.ncg from by decide) nbfree_tinyState
  have hskip : LedgerStep tinyFs (fun devvp gerr => devvp = .vblk ∧ gerr = 0) (s, [r]) (s, []) := by
    have hstep := LedgerStep.blkfree (s := s) (P := fun devvp gerr => devvp = .vblk ∧ gerr = 0)
      (List.mem_singleton_self r) ⟨rfl, rfl⟩
      (ffsBlkfreeCg_skipped tinyFs s .vblk 0 _ _ (Or.inl (by decide)))
    rwa [List.erase_cons_head] at hstep
  have hled := hall tinyFs tinyState s [] fsOk_tinyState boot_tinyState
    ((ReflTransGen.single hst).tail hskip)
  have hmap := (hled.map r.a hcg).mpr ⟨hfree, fun t ht => absurd ht (List.not_mem_nil)⟩
  rw [hused] at hmap
  exact absurd hmap (by decide)

end UfsX.Proofs
