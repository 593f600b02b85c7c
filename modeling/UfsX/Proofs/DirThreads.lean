import UfsX.Proofs.DirhashExact
import UfsX.Ufs.DirThreads

/-!
# `UfsX.Proofs.DirThreads`: threads that change one directory

The place that a lookup leaves in the inode is one for all threads. `Paired` says that
the thread which changes the directory is the one whose lookup came last. In a run of
such calls the directory is what the calls should have made of it (`threads_ok`): the
place in the inode is that of the owner (`Placed`), and nobody else uses it.

Without this, a thread removes at the place of another one, and panics
(`remove_elsewhere`).
-/

set_option autoImplicit false

namespace UfsX.Proofs

open UfsX.Lib UfsX.Ufs
open Relation (ReflTransGen)

variable {Tid : Type}

/-! ### Runs -/

/-- The entry is one that `ufs_makedirentry` makes. In the old format its type is the
high byte of the length of the name. -/
def Valid (ofs : Bool) : DirCall Tid → Prop
  | .enter _ _ dirp => EntryOk ofs dirp ∧ (ofs = true → dirp.type = 0)
  | _ => True

/-- A thread changes the directory right after its own lookup: no other lookup has
left a place, and no other thread has changed the directory. Where an entry is made, the
flag is there, and a directory that may grow stays below `MAXDIRSIZE`. -/
def Paired (savename : UInt32) (s : DirThreads Tid) : DirCall Tid → Prop
  | .enter t cnFlags _ => nameSaved savename cnFlags = true ∧ s.owner = some t ∧ s.dir.size + DIRBLKSIZ ≤ MAXDIRSIZE
  | .remove t => s.owner = some t
  | _ => True

instance [DecidableEq Tid] (savename : UInt32) (s : DirThreads Tid) :
    (c : DirCall Tid) → Decidable (Paired savename s c)
  | .enter .. => inferInstanceAs (Decidable (_ ∧ _ ∧ _))
  | .remove _ => inferInstanceAs (Decidable (_ = _))
  | .lookupCreate .. | .lookupDelete .. | .fail _ | .build _ | .free => .isTrue trivial

def PairedStep [DecidableEq Tid] (savename : UInt32) (ofs : Bool) (s s' : DirThreads Tid) : Prop :=
  ∃ c, Valid ofs c ∧ Paired savename s c ∧ s.exec savename ofs c = some s'

/-- A well-formed directory, and no thread in the middle of a change. -/
structure Start (ofs : Bool) (s : DirThreads Tid) : Prop where
  dir : ∃ rs, DirOk ofs s.dir.data s.dir.size rs ∧ s.expected = entriesOf rs
  types : ofs = true → ∀ e ∈ s.expected, e.2.2 = 0
  none : s.dir.dirhash = none
  size_le : s.dir.size ≤ MAXDIRSIZE
  diroff : DiroffOk s.dir
  idle : ∀ t, s.pending t = Option.none
  owner : s.owner = Option.none
  alive : s.panicked = false

/-- The directory is well formed, and holds the entries that it should. -/
def Intact (ofs : Bool) (s : DirThreads Tid) : Prop :=
  s.panicked = false
    ∧ ∃ rs, DirOk ofs s.dir.data s.dir.size rs ∧ (entriesOf rs).Perm s.expected

/-! ### The place in the inode -/

/-- The place is the one that a thread needs. -/
def Placed (rs : List Rec) (d : Dir) : Option Pending → Prop
  | none => True
  | some (.create name) => name ∉ namesOf rs ∧ Slotted (directsiz name.length) rs d
  | some (.delete name ino) => ∃ before r after, rs = before ++ r :: after ∧ r.live = true
      ∧ r.name = name ∧ r.ino = ino ∧ d.offset = recsLen before ∧ d.count = distance before

/-- What stays true of a directory and its threads. -/
structure ThreadsOk (ofs : Bool) (s : DirThreads Tid) (rs : List Rec) : Prop where
  state : DirState s.fnv ofs s.dir rs
  entries : (entriesOf rs).Perm s.expected
  types : ofs = true → ∀ e ∈ s.expected, e.2.2 = 0
  size_le : s.dir.size ≤ MAXDIRSIZE
  diroff : DiroffOk s.dir
  placed : ∀ t, s.owner = some t → Placed rs s.dir (s.pending t)
  alive : s.panicked = false

section Placed

variable {rs : List Rec} {d d' : Dir} {p : Option Pending}

/-- Only the place counts. -/
theorem Placed.congr (h : Placed rs d p) (hoff : d'.offset = d.offset) (hcount : d'.count = d.count)
    (hend : d'.endoff = d.endoff) (hsize : d'.size = d.size) : Placed rs d' p := by
  cases p with
  | none => trivial
  | some p =>
      cases p with
      | create name =>
          refine ⟨h.1, ?_⟩
          unfold Slotted
          rw [hoff, hcount, hend, hsize]
          exact h.2
      | delete name ino =>
          obtain ⟨before, r, after, hrs, hlive, hname, hino, ho, hc⟩ := h
          exact ⟨before, r, after, hrs, hlive, hname, hino, hoff.trans ho, hcount.trans hc⟩

/-- The entry that is removed is the one with the name. -/
theorem filter_removed {ofs : Bool} {m : Mem} {size : Nat} {before after : List Rec} {r : Rec}
    (hd : DirOk ofs m size rs) (hrs : rs = before ++ r :: after) (hlive : r.live = true) :
    (entriesOf rs).filter (fun e => e.1 ≠ r.name) = entriesOf before ++ entriesOf after := by
  have hentry : entriesOf (r :: after) = (r.name, r.ino, r.type) :: entriesOf after := by
    unfold entriesOf liveOf
    rw [List.filter_cons, if_pos hlive]
    rfl
  have hnames := hd.names
  rw [namesOf_eq, hrs, entriesOf_append, hentry, List.map_append, List.map_cons, List.nodup_append,
    List.nodup_cons] at hnames
  obtain ⟨-, ⟨hafter, -⟩, hbefore⟩ := hnames
  have hkeep₁ : (entriesOf before).filter (fun e => e.1 ≠ r.name) = entriesOf before := by
    refine List.filter_eq_self.mpr fun e he => decide_eq_true fun heq => ?_
    exact hbefore _ (List.mem_map_of_mem he) _ List.mem_cons_self heq
  have hkeep₂ : (entriesOf after).filter (fun e => e.1 ≠ r.name) = entriesOf after := by
    refine List.filter_eq_self.mpr fun e he => decide_eq_true fun heq => hafter ?_
    have hmem : e.1 ∈ (entriesOf after).map Prod.fst := List.mem_map_of_mem he
    rw [heq] at hmem
    exact hmem
  rw [hrs, entriesOf_append, hentry, List.filter_append, hkeep₁,
    List.filter_cons_of_neg (by simp), hkeep₂]

end Placed

namespace ThreadsOk

variable {ofs : Bool} {s : DirThreads Tid} {rs : List Rec}

theorem size_lt (h : ThreadsOk ofs s rs) : s.dir.size < 2147483648 := by
  have := h.size_le
  unfold MAXDIRSIZE at this
  omega

/-- A lookup that finds no place. -/
theorem looked (h : ThreadsOk ofs s rs) {d : Dir} (hstate : DirState s.fnv ofs d rs)
    (hdiroff : DiroffOk d) (hsize : d.size = s.dir.size)
    (hplaced : ∀ p, Placed rs s.dir p → Placed rs d p) : ThreadsOk ofs { s with dir := d } rs where
  state := hstate
  entries := h.entries
  types := h.types
  size_le := hsize.trans_le h.size_le
  diroff := hdiroff
  placed := fun t ht => hplaced _ (h.placed t ht)
  alive := h.alive

/-- The hash table is built, or freed. -/
theorem rehash (h : ThreadsOk ofs s rs) (fnv : List UInt8 → Nat) {dirhash : Option Dirhash}
    (hhash : HashOpt fnv ofs dirhash (index 0 rs) s.dir.size) :
    ThreadsOk ofs { s with dir := { s.dir with dirhash := dirhash }, fnv := fnv } rs where
  state := ⟨h.state.dir, hhash⟩
  entries := h.entries
  types := h.types
  size_le := h.size_le
  diroff := ⟨h.diroff.nonneg, h.diroff.blocks⟩
  placed := fun t ht => (h.placed t ht).congr rfl rfl rfl rfl
  alive := h.alive

variable [DecidableEq Tid]

/-- A lookup that leaves a place for its thread. -/
theorem found (h : ThreadsOk ofs s rs) (t : Tid) {d : Dir} {p : Pending}
    (hstate : DirState s.fnv ofs d rs) (hdiroff : DiroffOk d) (hsize : d.size = s.dir.size)
    (hplaced : Placed rs d (some p)) : ThreadsOk ofs (s.afterLookup t d (some p)) rs where
  state := hstate
  entries := h.entries
  types := h.types
  size_le := hsize.trans_le h.size_le
  diroff := hdiroff
  placed := by
    intro u hu
    obtain rfl : t = u := Option.some.inj hu
    change Placed rs d (Function.update s.pending t (some p) t)
    rw [Function.update_self]
    exact hplaced
  alive := h.alive

theorem lookupCreate (h : ThreadsOk ofs s rs) (t : Tid) (name : List UInt8) :
    ThreadsOk ofs (s.lookup ofs t .create name) rs := by
  have hs := h.state
  unfold DirThreads.lookup
  by_cases hmem : name ∈ namesOf rs
  · obtain ⟨before, r, after, hrs, hlive, rfl⟩ := mem_namesOf hmem
    obtain ⟨dirhash, prevoff, hlook, hhash, -⟩ := lookup_found .create hs h.size_lt (fun _ => h.diroff) hrs hlive
    obtain ⟨offset, count, diroff, hfound, -, hkeep, -⟩ := found_some
      (d := { s.dir with dirhash := dirhash }) .create prevoff hs.dir hrs hlive
    obtain ⟨rfl, rfl, rfl⟩ := hkeep rfl
    rw [hlook.trans hfound]
    exact h.looked ⟨hs.dir, hhash⟩ ⟨h.diroff.nonneg, h.diroff.blocks⟩ rfl
      (fun p hp => hp.congr rfl rfl rfl rfl)
  · obtain ⟨offset, count, endoff, hlook, hslot⟩ := lookup_create hs h.size_lt (.inl rfl) hmem
    rw [hlook]
    exact h.found t ⟨hs.dir, hs.hash⟩ ⟨h.diroff.nonneg, h.diroff.blocks⟩ rfl ⟨hmem, hslot⟩

theorem lookupDelete (h : ThreadsOk ofs s rs) (t : Tid) (name : List UInt8) :
    ThreadsOk ofs (s.lookup ofs t .delete name) rs := by
  have hs := h.state
  unfold DirThreads.lookup
  by_cases hmem : name ∈ namesOf rs
  · obtain ⟨before, r, after, hrs, hlive, rfl⟩ := mem_namesOf hmem
    obtain ⟨dirhash, hlook, hhash⟩ := lookup_delete hs h.size_lt h.diroff hrs hlive
    rw [hlook]
    exact h.found t ⟨hs.dir, hhash⟩ ⟨h.diroff.nonneg, h.diroff.blocks⟩ rfl
      ⟨before, r, after, hrs, hlive, rfl, rfl, rfl, rfl⟩
  · rw [lookup_enoent (by decide) hs h.size_lt h.diroff hmem]
    exact h.looked hs h.diroff rfl (fun p hp => hp)

/-- A change of the directory. -/
theorem changed (h : ThreadsOk ofs s rs) (t : Tid) {d : Dir} {rs' : List Rec}
    {expected : List (List UInt8 × Nat × Nat)} (hstate : DirState s.fnv ofs d rs')
    (hentries : (entriesOf rs').Perm expected) (htypes : ofs = true → ∀ e ∈ expected, e.2.2 = 0)
    (hsize : d.size ≤ MAXDIRSIZE) (hdiroff : d.diroff = s.dir.diroff) :
    ThreadsOk ofs (s.afterChange t expected (some d)) rs' where
  state := hstate
  entries := hentries
  types := htypes
  size_le := hsize
  diroff := h.diroff.of_eq hdiroff
  placed := fun _ hno => by cases hno
  alive := h.alive

theorem enter (h : ThreadsOk ofs s rs) {t : Tid} {dirp : Direct} (hentry : EntryOk ofs dirp)
    (htype : ofs = true → dirp.type = 0) (howner : s.owner = some t)
    (hsize : s.dir.size + DIRBLKSIZ ≤ MAXDIRSIZE) (hpending : s.pending t = some (.create dirp.name)) :
    ∃ rs', ThreadsOk ofs (s.afterChange t ((dirp.name, dirp.ino, dirp.type) :: s.expected)
      (s.dir.ufsDirenter s.fnv ofs dirp false)) rs' := by
  have hplaced := h.placed t howner
  rw [hpending] at hplaced
  obtain ⟨d, rs', henter, hs', hperm, hle, hdiroff⟩ := direnter_ok false h.state hentry hplaced.1 hsize
    hplaced.2
  rw [henter]
  refine ⟨rs', h.changed t hs' (hperm.trans (h.entries.cons _)) ?_ (hle.trans hsize) hdiroff⟩
  intro hofs e he
  cases he with
  | head => exact htype hofs
  | tail _ he => exact h.types hofs e he

theorem remove (h : ThreadsOk ofs s rs) {t : Tid} {name : List UInt8} {ino : Nat}
    (howner : s.owner = some t) (hpending : s.pending t = some (.delete name ino)) :
    ∃ rs', ThreadsOk ofs (s.afterChange t (s.expected.filter fun e => e.1 ≠ name)
      (s.dir.ufsDirremove s.fnv ino)) rs' := by
  have hplaced := h.placed t howner
  rw [hpending] at hplaced
  obtain ⟨before, r, after, hrs, hlive, rfl, hino, hoff, hcount⟩ := hplaced
  have hfilter := filter_removed h.state.dir hrs hlive
  have htype : ofs = true → r.type = 0 := by
    intro hofs
    refine h.types hofs (r.name, r.ino, r.type) (h.entries.mem_iff.mp ?_)
    refine List.mem_map.mpr ⟨r, List.mem_filter.mpr ⟨?_, hlive⟩, rfl⟩
    rw [hrs]
    exact List.mem_append_right _ List.mem_cons_self
  obtain ⟨data, dirhash, rs', hremove, hs', hentries⟩ := dirremove_ok h.state hrs hlive htype hino hoff
    hcount
  rw [hremove]
  refine ⟨rs', h.changed t hs' ?_ ?_ h.size_le rfl⟩
  · rw [hentries, ← hfilter]
    exact h.entries.filter _
  · exact fun hofs e he => h.types hofs e (List.mem_filter.mp he).1

/-- A thread that is not in the middle of a change. -/
theorem goto (h : ThreadsOk ofs s rs) (t : Tid) : ThreadsOk ofs (s.goto t none) rs where
  state := h.state
  entries := h.entries
  types := h.types
  size_le := h.size_le
  diroff := h.diroff
  placed := by
    intro u hu
    change Placed rs s.dir (Function.update s.pending t none u)
    by_cases hut : u = t
    · rw [hut, Function.update_self]
      trivial
    · rw [Function.update_of_ne hut]
      exact h.placed u hu
  alive := h.alive

theorem step {savename : UInt32} {s' : DirThreads Tid} (h : ThreadsOk ofs s rs) (hstep : PairedStep savename ofs s s') :
    ∃ rs', ThreadsOk ofs s' rs' := by
  obtain ⟨c, hvalid, hpaired, hexec⟩ := hstep
  have halive := h.alive
  cases c with
  | lookupCreate t name =>
      simp only [DirThreads.exec] at hexec
      split at hexec
      · cases hexec
      · cases hexec
        exact ⟨rs, h.lookupCreate t name⟩
  | lookupDelete t name =>
      simp only [DirThreads.exec] at hexec
      split at hexec
      · cases hexec
      · cases hexec
        exact ⟨rs, h.lookupDelete t name⟩
  | enter t cnFlags dirp =>
      obtain ⟨hsaved, howner, hsize⟩ := hpaired
      simp only [DirThreads.exec] at hexec
      split at hexec
      · cases hexec
      · next hcan =>
          rw [if_neg (Bool.not_eq_false _ ▸ hsaved)] at hexec
          cases hexec
          rw [not_or, not_not] at hcan
          exact h.enter hvalid.1 hvalid.2 howner hsize hcan.2
  | remove t =>
      simp only [DirThreads.exec] at hexec
      split at hexec
      · next name ino hpending =>
          rw [halive, if_neg Bool.false_ne_true] at hexec
          cases hexec
          exact h.remove hpaired hpending
      · cases hexec
  | fail t =>
      simp only [DirThreads.exec] at hexec
      split at hexec
      · cases hexec
      · cases hexec
        exact ⟨rs, h.goto t⟩
  | build fnv =>
      simp only [DirThreads.exec] at hexec
      split at hexec
      · cases hexec
      · next hcan =>
          split at hexec
          · cases hexec
          · next dh hbuild =>
              cases hexec
              obtain rfl : ofs = false := by
                cases ofs with
                | false => rfl
                | true => exact absurd (.inr (.inl rfl)) hcan
              exact ⟨rs, h.rehash fnv (hashOpt_build h.state.dir h.size_le hbuild)⟩
  | free =>
      simp only [DirThreads.exec] at hexec
      split at hexec
      · cases hexec
      · cases hexec
        exact ⟨rs, h.rehash s.fnv hashOpt_none⟩

end ThreadsOk

theorem threadsOk_start {ofs : Bool} {s : DirThreads Tid} (h : Start ofs s) : ∃ rs, ThreadsOk ofs s rs := by
  obtain ⟨rs, hd, hexpected⟩ := h.dir
  refine ⟨rs, ⟨hd, ?_⟩, ?_, h.types, h.size_le, h.diroff, ?_, h.alive⟩
  · rw [h.none]
    exact hashOpt_none
  · rw [hexpected]
  · intro t ht
    rw [h.owner] at ht
    cases ht

/-- Threads that change the directory right after their own lookup do not disturb
each other. -/
theorem threads_ok [DecidableEq Tid] (savename : UInt32) {ofs : Bool} {s₀ s : DirThreads Tid} (h : Start ofs s₀)
    (hrun : ReflTransGen (PairedStep savename ofs) s₀ s) : Intact ofs s := by
  obtain ⟨rs, hok⟩ := invariant_of_run (fun s => ∃ rs, ThreadsOk ofs s rs)
    (fun hinv hstep => hinv.elim fun _ hok => hok.step hstep) (threadsOk_start h) hrun
  exact ⟨hok.alive, rs, hok.state.dir, hok.entries⟩

/-! ### Two threads -/

/-- A directory of two entries, and two threads. -/
def twoThreads : DirThreads Bool :=
  ⟨twoDir, fun _ => 0, fun _ => none, false, none, [([97], 4, 8), ([98], 5, 8)]⟩

theorem twoThreads_start : Start false twoThreads where
  dir := ⟨_, twoDir_ok, rfl⟩
  types := nofun
  none := rfl
  size_le := by decide
  diroff := ⟨by decide, ⟨0, rfl⟩⟩
  idle := fun _ => rfl
  owner := rfl
  alive := rfl

/-- A call, where it may be made. -/
def pairedMove (savename : UInt32) (s : DirThreads Bool) (c : {c : DirCall Bool // Valid false c}) :
    Option (DirThreads Bool) :=
  if Paired savename s c then s.exec savename false c else none

theorem pairedStep_of_move {savename : UInt32} {c : {c : DirCall Bool // Valid false c}} {s s' : DirThreads Bool}
    (h : pairedMove savename s c = some s') : PairedStep savename false s s' := by
  unfold pairedMove at h
  split at h
  case isTrue hpaired => exact ⟨c, c.2, hpaired, h⟩
  case isFalse => cases h

/-- Two threads remove an entry each, after a look-up that was too early. With a flag that
has a bit, one of them also makes an entry. -/
theorem threads_ok_two :
    (∃ s, ReflTransGen (PairedStep SAVENAME false) twoThreads s ∧ s.expected = [] ∧ Intact false s)
      ∧ ∃ s, ReflTransGen (PairedStep 1 false) twoThreads s ∧ s.expected = [([99], 6, 8), ([98], 5, 8)]
        ∧ Intact false s := by
  have hgone : (moves (pairedMove SAVENAME)
      [⟨.lookupDelete true [98], trivial⟩, ⟨.lookupDelete false [97], trivial⟩, ⟨.remove false, trivial⟩,
        ⟨.fail true, trivial⟩, ⟨.lookupDelete true [98], trivial⟩, ⟨.remove true, trivial⟩]
      twoThreads).map DirThreads.expected = some [] := by
    decide +kernel
  have hmade : (moves (pairedMove 1)
      [⟨.lookupDelete false [97], trivial⟩, ⟨.remove false, trivial⟩, ⟨.lookupCreate true [99], trivial⟩,
        ⟨.enter true 1 ⟨6, 8, [99]⟩,
          ⟨by decide, by decide, by decide, by decide, by decide, by decide, by decide⟩, nofun⟩] twoThreads).map DirThreads.expected
        = some [([99], 6, 8), ([98], 5, 8)] := by
    decide +kernel
  obtain ⟨s, hs, hexpected⟩ := Option.map_eq_some_iff.mp hgone
  obtain ⟨u, hu, hexpected'⟩ := Option.map_eq_some_iff.mp hmade
  have hrun := run_of_moves (pairedMove SAVENAME) pairedStep_of_move _ hs
  have hrun' := run_of_moves (pairedMove 1) pairedStep_of_move _ hu
  exact ⟨⟨s, hrun, hexpected, threads_ok SAVENAME twoThreads_start hrun⟩,
    u, hrun', hexpected', threads_ok 1 twoThreads_start hrun'⟩

/-- Two threads look up an entry each, and the first one removes: the place is that of
the second one, and `ufs_dirremove` panics. -/
theorem remove_elsewhere :
    Start false twoThreads
      ∧ ∃ s, moves (fun s c => s.exec SAVENAME false c)
          [.lookupDelete false [97], .lookupDelete true [98], .remove false] twoThreads = some s
        ∧ ¬ Intact false s := by
  have hpanic : (moves (fun s c => s.exec SAVENAME false c)
      [.lookupDelete false [97], .lookupDelete true [98], .remove false] twoThreads).map
        DirThreads.panicked = some true := by
    decide +kernel
  obtain ⟨s, hs, hpanicked⟩ := Option.map_eq_some_iff.mp hpanic
  refine ⟨twoThreads_start, s, hs, ?_⟩
  rintro ⟨halive, -⟩
  rw [hpanicked] at halive
  cases halive

end UfsX.Proofs
