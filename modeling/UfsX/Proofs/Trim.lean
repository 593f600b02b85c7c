import UfsX.Lib.Run
import UfsX.Ffs.Trim
import UfsX.Proofs.Consistent
import Mathlib.Data.List.Perm.Basic
import Mathlib.Algebra.BigOperators.Group.List.Basic

/-!
# `UfsX.Proofs.Trim`: no freed block is lost, and TRIM discards what was freed

`Books` is the invariant of the trim requests: every block that `ffs_blkfree` was
asked to free has been given to `ffs_blkfree_cg`, waits in a task, is in a request
of the trim hash, or is in hand; the requests of the hash are those of the active
keys; and the two counters count the waiting tasks. Each small step of the code (take a
request out of the hash, put one in, send one, run a task) moves blocks from one
place to another.

`trim_of_run`: in every run in which `ffs_blkrelease_finish` is not called with
`dotrimcons` switched off, all blocks have arrived when the keys are finished and
the tasks have run.
-/

set_option autoImplicit false

namespace UfsX.Proofs

open UfsX.Lib UfsX.Ffs UfsX.Ufs
open Relation (ReflTransGen)

/-! ### The calls, and what has been asked -/

/-- A state, the keys that are in use, and the blocks passed to `ffs_blkfree`. -/
structure TrimLedger where
  state : TrimState
  active : List Nat
  asked : List TrimBlkreq

/-- A call, with the value of `dotrimcons` where it is read; or a waiting task
runs. -/
inductive TrimCall where
  | start (dotrimcons : Bool) (inum : Nat)
  | free (bno size inum key : Nat)
  | finish (dotrimcons : Bool) (key : Nat)
  | task (n : Nat)

namespace TrimLedger

variable (m : TrimMount) (c : TrimLedger)

/-- A block is freed with no key, or with one that is in use; a key that
`ffs_blkrelease_start` has handed out is finished once. -/
def Allowed : TrimCall → Prop
  | .start _ _ => True
  | .free _ _ _ key => key = NOTRIM_KEY ∨ key = SINGLETON_KEY ∨ key ∈ c.active
  | .finish _ key => key = SINGLETON_KEY ∨ key ∈ c.active
  | .task _ => True

def step : TrimCall → Option TrimLedger
  | .start dotrimcons inum =>
      (ffsBlkreleaseStart m dotrimcons c.state inum).map fun (key, s) =>
        ⟨s, if key = SINGLETON_KEY then c.active else key :: c.active, c.asked⟩
  | .free bno size inum key =>
      (ffsBlkfree m c.state bno size inum key).map fun s => ⟨s, c.active, c.asked ++ [⟨bno, size⟩]⟩
  | .finish dotrimcons key =>
      (ffsBlkreleaseFinish m dotrimcons c.state key).map fun s => ⟨s, c.active.erase key, c.asked⟩
  | .task n =>
      (c.state.tq[n]?).map fun tp =>
        ⟨ffsBlkfreeTrimTask m.fs { c.state with tq := c.state.tq.eraseIdx n } tp, c.active, c.asked⟩

/-- A key is finished while `dotrimcons` is on; a block with a key has a size; and
the counter of the keys has not come round to one in use. -/
def Clear : TrimCall → Prop
  | .start _ _ => (nextKey FIRST_VALID_KEY c.state.masterkey).1 ∉ c.active
  | .free _ size _ key => key ∈ c.active → size ≠ 0
  | .finish dotrimcons key => key ∈ c.active → dotrimcons = true
  | .task _ => True

end TrimLedger

/-- A call, and what it does. `P` restricts the calls. -/
def TrimNext (m : TrimMount) (P : TrimLedger → TrimCall → Prop) (c c' : TrimLedger) : Prop :=
  ∃ call, c.Allowed call ∧ P c call ∧ c.step m call = some c'

/-- The blocks given to `ffs_blkfree_cg`. -/
def givenBlocks (s : TrimState) : List TrimBlkreq := s.cgfrees.map fun f => ⟨f.bno, f.size⟩

/-- The blocks of some requests. -/
def blocksOf (l : List TrimParams) : List TrimBlkreq := l.flatMap TrimParams.blklist

/-! ### The trim hash -/

theorem perm_find_eraseP {α : Type*} {p : α → Bool} {l : List α} {a : α} (h : l.find? p = some a) :
    l.Perm (a :: l.eraseP p) := by
  induction l with
  | nil => cases h
  | cons a₀ l ih =>
      by_cases hp : p a₀ = true
      · rw [List.find?_cons_of_pos hp] at h
        obtain rfl := Option.some.inj h
        rw [List.eraseP_cons_of_pos hp]
      · rw [List.find?_cons_of_neg hp] at h
        rw [List.eraseP_cons_of_neg hp]
        exact ((ih h).cons a₀).trans (List.Perm.swap a a₀ _)

/-- No other request has the key. -/
theorem map_store_eq {l : List TrimParams} {tp : TrimParams}
    (h : tp.key ∉ l.map TrimParams.key) :
    (l.map fun tp' => if tp'.key = tp.key then tp else tp') = l := by
  refine (List.map_congr_left fun tp' htp' => if_neg fun heq => ?_).trans (List.map_id _)
  exact h (heq ▸ List.mem_map_of_mem htp')

/-- A change of a request is the same as taking it out and putting in a new one. -/
theorem perm_store {s : TrimState} {key : Nat} {tp tp' : TrimParams}
    (hnodup : (s.trimhash.map TrimParams.key).Nodup) (h : s.find key = some tp)
    (hkey : tp.key = key) (hkey' : tp'.key = key) :
    (s.store tp').trimhash.Perm (tp' :: (s.unhash key).trimhash) := by
  subst hkey'
  have hperm : s.trimhash.Perm (tp :: (s.unhash tp'.key).trimhash) := perm_find_eraseP h
  have hkeys := (hperm.map TrimParams.key).nodup_iff.mp hnodup
  rw [List.map_cons, List.nodup_cons, hkey] at hkeys
  have hmap := hperm.map fun tp₀ => if tp₀.key = tp'.key then tp' else tp₀
  rw [List.map_cons, if_pos hkey, map_store_eq hkeys.1] at hmap
  exact hmap

/-! ### The books -/

/-- The fragments of some requests, as `numfrags` counts them. -/
def fragsOf (fs : Fs) (l : List TrimParams) : Int := (l.map fun tp => (fs.numfrags tp.size : Int)).sum

theorem fragsOf_cons (fs : Fs) (tp : TrimParams) (l : List TrimParams) :
    fragsOf fs (tp :: l) = fs.numfrags tp.size + fragsOf fs l := by
  simp [fragsOf]

theorem fragsOf_perm {fs : Fs} {l l' : List TrimParams} (h : l.Perm l') :
    fragsOf fs l = fragsOf fs l' := (h.map _).sum_eq

/-- `i` and `b` are the values of the two counters when nothing is in flight. -/
structure Books (fs : Fs) (i b : Int) (s : TrimState) (hand : List TrimBlkreq) (active : List Nat)
    (asked : List TrimBlkreq) : Prop where
  blocks : asked.Perm (givenBlocks s ++ blocksOf s.tq ++ blocksOf s.trimhash ++ hand)
  keys : (s.trimhash.map TrimParams.key).Perm active
  nodup : active.Nodup
  valid : ∀ key ∈ active, FIRST_VALID_KEY ≤ key
  empty : ∀ tp ∈ s.trimhash, tp.size = 0 → tp.blklist = []
  inflight : s.inflight = toU32 (i + s.tq.length)
  inflightBlks : s.inflightBlks = toU32 (b + fragsOf fs s.tq)

namespace Books

variable {fs : Fs} {i b : Int} {s : TrimState} {hand asked : List TrimBlkreq} {active : List Nat}

/-- The order of the hash, of the keys and of what is in hand does not matter. -/
theorem congr {l : List TrimParams} {hand' : List TrimBlkreq} {active' : List Nat}
    (h : Books fs i b s hand active asked) (hl : l.Perm s.trimhash) (hhand : hand'.Perm hand)
    (hactive : active'.Perm active) :
    Books fs i b { s with trimhash := l } hand' active' asked where
  blocks := by
    refine h.blocks.trans (List.Perm.append (List.Perm.append_left _ ?_) hhand.symm)
    exact (hl.flatMap_right _).symm
  keys := ((hl.map _).trans h.keys).trans hactive.symm
  nodup := hactive.nodup_iff.mpr h.nodup
  valid key hkey := h.valid key (hactive.subset hkey)
  empty tp htp := h.empty tp (hl.subset htp)
  inflight := h.inflight
  inflightBlks := h.inflightBlks

/-- A block is asked for. -/
theorem ask (h : Books fs i b s hand active asked) (blk : TrimBlkreq) :
    Books fs i b s (blk :: hand) active (asked ++ [blk]) := by
  refine ⟨?_, h.keys, h.nodup, h.valid, h.empty, h.inflight, h.inflightBlks⟩
  refine (List.perm_append_singleton blk asked).trans ?_
  refine (h.blocks.cons blk).trans ?_
  exact List.perm_middle.symm

/-- A block in hand is given to `ffs_blkfree_cg`. -/
theorem give {bno size inum : Nat} (h : Books fs i b s [⟨bno, size⟩] active asked) :
    Books fs i b { s with cgfrees := s.cgfrees ++ [⟨bno, size, inum⟩] } [] active asked := by
  refine ⟨?_, h.keys, h.nodup, h.valid, h.empty, h.inflight, h.inflightBlks⟩
  refine h.blocks.trans ?_
  simp only [givenBlocks, List.map_append, List.map_cons, List.map_nil, List.append_nil,
    List.append_assoc]
  refine List.Perm.append_left _ ?_
  rw [← List.append_assoc]
  exact List.perm_append_comm

/-- The blocks of a request in hand are sent. -/
theorem send (tp : TrimParams) (h : Books fs i b s tp.blklist active asked) :
    Books fs i b (ffsBlkfreeSendtrim fs s tp) [] active asked := by
  refine ⟨?_, h.keys, h.nodup, h.valid, h.empty, ?_, ?_⟩
  · refine h.blocks.trans ?_
    simp only [ffsBlkfreeSendtrim, givenBlocks, blocksOf, List.flatMap_append,
      List.flatMap_cons, List.flatMap_nil, List.append_nil, List.append_assoc]
    refine List.Perm.append_left _ (List.Perm.append_left _ ?_)
    exact List.perm_append_comm
  · show toU32 (s.inflight + 1) = toU32 (i + ((s.tq ++ [tp]).length : Int))
    rw [h.inflight, List.length_append, List.length_singleton, Nat.cast_add, Nat.cast_one]
    unfold toU32
    omega
  · show toU32 (s.inflightBlks + fs.numfrags tp.size) = toU32 (b + fragsOf fs (s.tq ++ [tp]))
    rw [h.inflightBlks, fragsOf_perm (List.perm_append_singleton tp s.tq), fragsOf_cons]
    unfold toU32
    omega

/-- A new request comes in the hash, with blocks in hand. -/
theorem hash (tp : TrimParams) (h : Books fs i b s (tp.blklist ++ hand) active asked)
    (hkey : tp.key ∉ active) (hvalid : FIRST_VALID_KEY ≤ tp.key)
    (hempty : tp.size = 0 → tp.blklist = []) :
    Books fs i b (s.hash tp) hand (tp.key :: active) asked := by
  refine ⟨?_, h.keys.cons _, List.nodup_cons.mpr ⟨hkey, h.nodup⟩, ?_, ?_, h.inflight, h.inflightBlks⟩
  · refine h.blocks.trans ?_
    simp only [TrimState.hash, givenBlocks, blocksOf, List.flatMap_cons, List.append_assoc]
    refine List.Perm.append_left _ (List.Perm.append_left _ ?_)
    rw [← List.append_assoc, ← List.append_assoc]
    exact List.Perm.append_right _ List.perm_append_comm
  · intro key hmem
    rcases List.mem_cons.mp hmem with rfl | hmem
    · exact hvalid
    · exact h.valid key hmem
  · intro tp' htp'
    rcases List.mem_cons.mp htp' with rfl | htp'
    · exact hempty
    · exact h.empty tp' htp'

/-- A key in use has its request in the hash. -/
theorem find_of_mem {key : Nat} (h : Books fs i b s hand active asked) (hkey : key ∈ active) :
    ∃ tp, s.find key = some tp ∧ tp.key = key ∧ tp ∈ s.trimhash := by
  have hmem : key ∈ s.trimhash.map TrimParams.key := h.keys.symm.subset hkey
  obtain ⟨tp, htp, heq⟩ := List.mem_map.mp hmem
  have hsome : (s.find key).isSome := List.find?_isSome.mpr ⟨tp, htp, decide_eq_true heq⟩
  obtain ⟨tp', htp'⟩ := Option.isSome_iff_exists.mp hsome
  exact ⟨tp', htp', by simpa using List.find?_some htp', List.mem_of_find?_eq_some htp'⟩

/-- A request is taken out of the hash; its blocks are in hand. -/
theorem unhash {key : Nat} {tp : TrimParams} (h : Books fs i b s hand active asked)
    (hfind : s.find key = some tp) (hkey : tp.key = key) :
    Books fs i b (s.unhash key) (tp.blklist ++ hand) (active.erase key) asked := by
  have hperm : s.trimhash.Perm (tp :: (s.unhash key).trimhash) := perm_find_eraseP hfind
  have hkeys : (key :: (s.unhash key).trimhash.map TrimParams.key).Perm active := by
    subst hkey
    exact (hperm.map TrimParams.key).symm.trans h.keys
  refine ⟨?_, ?_, h.nodup.erase key, ?_, ?_, h.inflight, h.inflightBlks⟩
  · refine h.blocks.trans ?_
    have hblocks : (blocksOf s.trimhash).Perm (tp.blklist ++ blocksOf (s.unhash key).trimhash) :=
      hperm.flatMap_right _
    rw [show givenBlocks (s.unhash key) = givenBlocks s from rfl,
      show (s.unhash key).tq = s.tq from rfl]
    simp only [List.append_assoc]
    refine List.Perm.append_left _ (List.Perm.append_left _ ?_)
    refine (hblocks.append_right hand).trans ?_
    rw [← List.append_assoc]
    exact List.Perm.append_right _ List.perm_append_comm
  · have herase := hkeys.erase key
    rwa [List.erase_cons_head] at herase
  · intro key' hkey'
    exact h.valid key' (List.mem_of_mem_erase hkey')
  · intro tp' htp'
    exact h.empty tp' (hperm.symm.subset (List.mem_cons_of_mem _ htp'))

/-- A request of the hash is changed, and gets blocks that are in hand. -/
theorem store {key : Nat} {tp tp' : TrimParams} (h : Books fs i b s hand active asked)
    (hfind : s.find key = some tp) (hkey : tp.key = key) (hkey' : tp'.key = key)
    (hactive : key ∈ active) (hblk : tp'.blklist.Perm (tp.blklist ++ hand))
    (hempty : tp'.size = 0 → tp'.blklist = []) :
    Books fs i b (s.store tp') [] active asked := by
  have hout : Books fs i b (s.unhash key) (tp'.blklist ++ []) (active.erase key) asked :=
    (h.unhash hfind hkey).congr (List.Perm.refl _) (by simpa using hblk) (List.Perm.refl _)
  have hnew : tp'.key ∉ active.erase key := by
    rw [hkey']
    exact h.nodup.not_mem_erase
  have hin := hout.hash tp' hnew (hkey' ▸ h.valid key hactive) hempty
  have hnodup : (s.trimhash.map TrimParams.key).Nodup := h.keys.nodup_iff.mpr h.nodup
  refine hin.congr (l := (s.store tp').trimhash) ?_ (List.Perm.refl _) ?_
  · exact perm_store hnodup hfind hkey hkey'
  · rw [hkey']
    exact List.perm_cons_erase hactive

/-- A waiting task runs. -/
theorem task {n : Nat} {tp : TrimParams} (h : Books fs i b s [] active asked)
    (htp : s.tq[n]? = some tp) :
    Books fs i b (ffsBlkfreeTrimTask fs { s with tq := s.tq.eraseIdx n } tp) [] active asked := by
  obtain ⟨hn, htp⟩ := List.getElem?_eq_some_iff.mp htp
  have hperm : s.tq.Perm (tp :: s.tq.eraseIdx n) := by
    rw [← htp]
    exact (List.getElem_cons_eraseIdx_perm hn).symm
  refine ⟨?_, h.keys, h.nodup, h.valid, h.empty, ?_, ?_⟩
  · refine h.blocks.trans ?_
    have hblocks : (blocksOf s.tq).Perm (tp.blklist ++ blocksOf (s.tq.eraseIdx n)) :=
      hperm.flatMap_right _
    have hgiven : givenBlocks (ffsBlkfreeTrimTask fs { s with tq := s.tq.eraseIdx n } tp)
        = givenBlocks s ++ tp.blklist := by
      simp [givenBlocks, ffsBlkfreeTrimTask, Function.comp_def]
    rw [hgiven]
    simp only [ffsBlkfreeTrimTask, List.append_nil, List.append_assoc]
    refine List.Perm.append_left _ ?_
    rw [← List.append_assoc]
    exact hblocks.append_right _
  · have hlen := hperm.length_eq
    show toU32 (s.inflight - 1) = toU32 (i + ((s.tq.eraseIdx n).length : Int))
    rw [h.inflight, hlen, List.length_cons, Nat.cast_add, Nat.cast_one]
    unfold toU32
    omega
  · show toU32 (s.inflightBlks - fs.numfrags tp.size) = toU32 (b + fragsOf fs (s.tq.eraseIdx n))
    rw [h.inflightBlks, fragsOf_perm hperm, fragsOf_cons]
    unfold toU32
    omega

end Books

/-! ### The functions -/

section Functions

variable {m : TrimMount} {i b : Int} {s s' : TrimState} {asked : List TrimBlkreq} {active : List Nat}

/-- The counter gives a valid key. -/
theorem nextKey_valid (masterkey : Nat) :
    FIRST_VALID_KEY ≤ (nextKey FIRST_VALID_KEY masterkey).1 := by
  unfold FIRST_VALID_KEY
  by_cases h : masterkey < 3
  · have hcases : masterkey = 0 ∨ masterkey = 1 ∨ masterkey = 2 := by omega
    rcases hcases with rfl | rfl | rfl <;> decide
  · simp [nextKey, FIRST_VALID_KEY, h]
    omega

theorem ne_singleton {key : Nat} (h : FIRST_VALID_KEY ≤ key) : key ≠ SINGLETON_KEY := by
  unfold FIRST_VALID_KEY at h
  unfold SINGLETON_KEY
  omega

theorem trimLookup_old {key : Nat} {tp : TrimParams} (hvalid : FIRST_VALID_KEY ≤ key)
    (hfind : s.find key = some tp) (bno size inum : Nat) :
    trimLookup s bno size inum key .old = some (tp, s) := by
  simp [trimLookup, hvalid, hfind]

theorem trimLookup_done {key : Nat} {tp : TrimParams} (hvalid : FIRST_VALID_KEY ≤ key)
    (hfind : s.find key = some tp) (bno size inum : Nat) :
    trimLookup s bno size inum key .done = some (tp, s.unhash key) := by
  simp [trimLookup, hvalid, hfind]

theorem trimLookup_replace {key : Nat} {tp : TrimParams} (hvalid : FIRST_VALID_KEY ≤ key)
    (hfind : s.find key = some tp) (bno size inum : Nat) :
    trimLookup s bno size inum key .replace
      = some (⟨[], inum, bno, size, key⟩, (s.unhash key).hash ⟨[], inum, bno, size, key⟩) := by
  simp [trimLookup, hvalid, hfind]

/-- A request that was put in front is changed there. -/
theorem store_hash {key : Nat} {t u : TrimParams} (hkey : t.key = key) (hkey' : u.key = key)
    (hnew : key ∉ s.trimhash.map TrimParams.key) : (s.hash t).store u = s.hash u := by
  have hrest : (s.trimhash.map fun tp => if tp.key = u.key then u else tp) = s.trimhash :=
    map_store_eq (hkey' ▸ hnew)
  rw [hkey'] at hrest
  unfold TrimState.store TrimState.hash
  simp only [List.map_cons, hkey, hkey', if_true, hrest]

theorem ffsBlkreleaseStart_books (dotrimcons : Bool) (inum : Nat)
    (h : Books m.fs i b s [] active asked)
    (hnew : (nextKey FIRST_VALID_KEY s.masterkey).1 ∉ active) :
    ∃ key s', ffsBlkreleaseStart m dotrimcons s inum = some (key, s')
      ∧ Books m.fs i b s' [] (if key = SINGLETON_KEY then active else key :: active) asked := by
  have hvalid := nextKey_valid s.masterkey
  unfold ffsBlkreleaseStart
  by_cases hoff : (!m.candelete || !dotrimcons) = true
  · rw [if_pos hoff]
    exact ⟨SINGLETON_KEY, s, rfl, h⟩
  · rw [if_neg hoff]
    generalize nextKey FIRST_VALID_KEY s.masterkey = p at hnew hvalid
    obtain ⟨key, masterkey⟩ := p
    have hfind : TrimState.find { s with masterkey := masterkey } key = none := by
      refine List.find?_eq_none.mpr fun tp htp hkey => hnew (h.keys.subset ?_)
      rw [← of_decide_eq_true hkey]
      exact List.mem_map_of_mem htp
    have hsame : Books m.fs i b { s with masterkey := masterkey } ([] ++ []) active asked :=
      ⟨h.blocks, h.keys, h.nodup, h.valid, h.empty, h.inflight, h.inflightBlks⟩
    have hin := hsame.hash ⟨[], inum, 0, 0, key⟩ hnew hvalid fun _ => rfl
    refine ⟨key, TrimState.hash { s with masterkey := masterkey } ⟨[], inum, 0, 0, key⟩, ?_, ?_⟩
    · simp only [trimLookup]
      rw [if_pos ⟨hvalid, hfind⟩]
    · rw [if_neg (ne_singleton hvalid)]
      exact hin

theorem ffsBlkreleaseFinish_books {dotrimcons : Bool} {key : Nat}
    (h : Books m.fs i b s [] active asked) (hcan : m.candelete = true)
    (hallowed : key = SINGLETON_KEY ∨ key ∈ active) (hon : key ∈ active → dotrimcons = true) :
    ∃ s', ffsBlkreleaseFinish m dotrimcons s key = some s'
      ∧ Books m.fs i b s' [] (active.erase key) asked := by
  by_cases hmem : key ∈ active
  · have hvalid := h.valid key hmem
    obtain ⟨tp, hfind, hkey, htp⟩ := h.find_of_mem hmem
    have hout := h.unhash hfind hkey
    rw [List.append_nil] at hout
    simp only [ffsBlkreleaseFinish, hcan, hon hmem, Bool.not_true, Bool.or_self,
      Bool.false_eq_true, if_false, if_neg (ne_singleton hvalid), trimLookup_done hvalid hfind]
    by_cases hsize : tp.size = 0
    · rw [if_pos hsize]
      rw [h.empty tp htp hsize] at hout
      exact ⟨_, rfl, hout⟩
    · rw [if_neg hsize]
      exact ⟨_, rfl, hout.send tp⟩
  · -- a key that was never started: nothing to finish
    have hsingle : key = SINGLETON_KEY := hallowed.resolve_right hmem
    rw [List.erase_of_not_mem hmem]
    refine ⟨s, ?_, h⟩
    unfold ffsBlkreleaseFinish
    rw [if_pos hsingle, ite_self]

theorem blkfreeKeyed_books {bno size inum key : Nat} (h : Books m.fs i b s [] active asked)
    (hmem : key ∈ active) (hsize : size ≠ 0) :
    ∃ s', blkfreeKeyed m.fs s bno size inum key = some s'
      ∧ Books m.fs i b s' [] active (asked ++ [⟨bno, size⟩]) := by
  have hvalid := h.valid key hmem
  obtain ⟨tp, hfind, hkey, htp⟩ := h.find_of_mem hmem
  have hask := h.ask ⟨bno, size⟩
  have hperm (l : List TrimBlkreq) : (⟨bno, size⟩ :: l).Perm (l ++ [⟨bno, size⟩]) :=
    (List.perm_append_singleton _ l).symm
  simp only [blkfreeKeyed, trimLookup_old hvalid hfind]
  by_cases hfirst : tp.size = 0
  · rw [if_pos hfirst]
    exact ⟨_, rfl, hask.store hfind hkey hkey hmem (hperm _) fun hno => absurd hno hsize⟩
  rw [if_neg hfirst]
  have hgrow (hno : tp.size + size = 0) : False := by omega
  by_cases hfront : bno + m.fs.numfrags size = tp.bno
  · rw [if_pos hfront]
    exact ⟨_, rfl, hask.store hfind hkey hkey hmem (hperm _) fun hno => (hgrow hno).elim⟩
  rw [if_neg hfront]
  by_cases hback : bno = tp.bno + m.fs.numfrags tp.size
  · rw [if_pos hback]
    exact ⟨_, rfl, hask.store hfind hkey hkey hmem (List.Perm.refl _) fun hno => (hgrow hno).elim⟩
  rw [if_neg hback, trimLookup_replace hvalid hfind]
  -- the old request goes out and is sent, a new one comes in with the block
  have hout := hask.unhash hfind hkey
  have hnew : key ∉ active.erase key := h.nodup.not_mem_erase
  have hnew' : key ∉ (s.unhash key).trimhash.map TrimParams.key := fun hno =>
    hnew (hout.keys.subset hno)
  have hhand : Books m.fs i b (s.unhash key) ([⟨bno, size⟩] ++ tp.blklist) (active.erase key)
      (asked ++ [⟨bno, size⟩]) :=
    hout.congr (List.Perm.refl _) List.perm_append_comm (List.Perm.refl _)
  have hin := hhand.hash ⟨[⟨bno, size⟩], inum, bno, size, key⟩ hnew hvalid fun hno => absurd hno hsize
  have hall := hin.congr (List.Perm.refl _) (List.Perm.refl _) (List.perm_cons_erase hmem)
  have hstore := store_hash (s := s.unhash key) (t := ⟨[], inum, bno, size, key⟩)
    (u := ⟨[⟨bno, size⟩], inum, bno, size, key⟩) rfl rfl hnew'
  refine ⟨_, rfl, ?_⟩
  show Books m.fs i b (ffsBlkfreeSendtrim m.fs (TrimState.store (TrimState.hash _ _) _) tp) [] active _
  rw [hstore]
  exact hall.send tp

theorem ffsBlkfree_books (bno inum : Nat) {size key : Nat} (h : Books m.fs i b s [] active asked)
    (hsnap : ∀ bno size inum, m.snapblkfree bno size inum = false)
    (hallowed : key = NOTRIM_KEY ∨ key = SINGLETON_KEY ∨ key ∈ active)
    (hsize : key ∈ active → size ≠ 0) :
    ∃ s', ffsBlkfree m s bno size inum key = some s'
      ∧ Books m.fs i b s' [] active (asked ++ [⟨bno, size⟩]) := by
  have hask := h.ask ⟨bno, size⟩
  simp only [ffsBlkfree, hsnap, Bool.and_false, Bool.false_eq_true, if_false]
  by_cases hplain : (key = NOTRIM_KEY || !m.candelete || m.devvp = .vreg) = true
  · rw [if_pos hplain]
    exact ⟨_, rfl, hask.give⟩
  rw [if_neg hplain]
  by_cases hsingle : key = SINGLETON_KEY
  · rw [if_pos hsingle]
    exact ⟨_, rfl, hask.send ⟨[⟨bno, size⟩], inum, bno, size, key⟩⟩
  rw [if_neg hsingle]
  have hmem : key ∈ active := by
    rcases hallowed with hkey | hkey | hkey
    · simp [hkey] at hplain
    · exact absurd hkey hsingle
    · exact hkey
  exact blkfreeKeyed_books h hmem (hsize hmem)

end Functions

/-! ### Runs -/

/-- A mount that can delete, without a snapshot that claims blocks. -/
structure CanDelete (m : TrimMount) : Prop where
  candelete : m.candelete = true
  snapblkfree : ∀ bno size inum, m.snapblkfree bno size inum = false

/-- Nothing has been freed yet. The two counters are `u_int`s. -/
structure TrimStart (s : TrimState) : Prop where
  trimhash : s.trimhash = []
  tq : s.tq = []
  cgfrees : s.cgfrees = []
  inflight : toU32 s.inflight = s.inflight
  inflightBlks : toU32 s.inflightBlks = s.inflightBlks

/-- When no key is in use and no task waits, every block has been given to
`ffs_blkfree_cg` once, the hash is empty and the counters are back. And no call
fails an assertion. -/
structure TrimOk (m : TrimMount) (s₀ : TrimState) (c : TrimLedger) : Prop where
  settled : c.active = [] → c.state.tq = [] →
    c.asked.Perm (givenBlocks c.state) ∧ c.state.trimhash = []
      ∧ c.state.inflight = s₀.inflight ∧ c.state.inflightBlks = s₀.inflightBlks
  returns : ∀ call, c.Allowed call → c.Clear call →
    (∀ n, call = .task n → n < c.state.tq.length) → (c.step m call).isSome

/-- What one call does to the books. -/
theorem books_step {m : TrimMount} {i b : Int} {c : TrimLedger} {call : TrimCall} (hm : CanDelete m)
    (h : Books m.fs i b c.state [] c.active c.asked) (hallowed : c.Allowed call)
    (hclear : c.Clear call) (htask : ∀ n, call = .task n → n < c.state.tq.length) :
    ∃ c', c.step m call = some c' ∧ Books m.fs i b c'.state [] c'.active c'.asked := by
  cases call with
  | start dotrimcons inum =>
      obtain ⟨key, s', hs, hbooks⟩ :=
        ffsBlkreleaseStart_books (m := m) dotrimcons inum h hclear
      exact ⟨_, by rw [TrimLedger.step, hs]; rfl, hbooks⟩
  | free bno size inum key =>
      obtain ⟨s', hs, hbooks⟩ := ffsBlkfree_books (m := m) bno inum h hm.snapblkfree hallowed hclear
      exact ⟨_, by rw [TrimLedger.step, hs]; rfl, hbooks⟩
  | finish dotrimcons key =>
      obtain ⟨s', hs, hbooks⟩ := ffsBlkreleaseFinish_books h hm.candelete hallowed hclear
      exact ⟨_, by rw [TrimLedger.step, hs]; rfl, hbooks⟩
  | task n =>
      have htp := List.getElem?_eq_getElem (htask n rfl)
      exact ⟨_, by rw [TrimLedger.step, htp]; rfl, h.task htp⟩

theorem books_next {m : TrimMount} {i b : Int} {c c' : TrimLedger} (hm : CanDelete m)
    (h : Books m.fs i b c.state [] c.active c.asked) (hs : TrimNext m TrimLedger.Clear c c') :
    Books m.fs i b c'.state [] c'.active c'.asked := by
  obtain ⟨call, hallowed, hclear, hstep⟩ := hs
  have htask (n : Nat) (hn : call = .task n) : n < c.state.tq.length := by
    subst hn
    obtain ⟨tp, htp, -⟩ := Option.map_eq_some_iff.mp hstep
    exact (List.getElem?_eq_some_iff.mp htp).1
  obtain ⟨c'', hstep', hbooks⟩ := books_step hm h hallowed hclear htask
  obtain rfl := Option.some.inj (hstep.symm.trans hstep')
  exact hbooks

theorem books_start {fs : Fs} {s : TrimState} (h : TrimStart s) :
    Books fs s.inflight s.inflightBlks s [] [] [] where
  blocks := by simp [givenBlocks, blocksOf, h.cgfrees, h.tq, h.trimhash]
  keys := by simp [h.trimhash]
  nodup := List.nodup_nil
  valid key hkey := by cases hkey
  empty tp htp := by simp [h.trimhash] at htp
  inflight := by simp [h.tq, h.inflight]
  inflightBlks := by simp [h.tq, fragsOf, h.inflightBlks]

theorem Books.ok {m : TrimMount} {s₀ : TrimState} {c : TrimLedger} (hm : CanDelete m) (h₀ : TrimStart s₀)
    (h : Books m.fs s₀.inflight s₀.inflightBlks c.state [] c.active c.asked) : TrimOk m s₀ c where
  settled hactive htq := by
    have hhash : c.state.trimhash = [] := by
      have hkeys := h.keys
      rw [hactive] at hkeys
      exact List.map_eq_nil_iff.mp hkeys.eq_nil
    refine ⟨?_, hhash, ?_, ?_⟩
    · have hblocks := h.blocks
      simpa [htq, hhash, blocksOf] using hblocks
    · rw [h.inflight, htq]
      simpa using h₀.inflight
    · rw [h.inflightBlks, htq]
      simpa [fragsOf] using h₀.inflightBlks
  returns call hallowed hclear htask := by
    obtain ⟨c', hstep, -⟩ := books_step hm h hallowed hclear htask
    rw [hstep]
    rfl

/-- In every run of calls and tasks, in any order and with any changes of
`dotrimcons`, in which no key is finished while `dotrimcons` is off, no freed block
is lost. -/
theorem trim_of_run {m : TrimMount} {s₀ : TrimState} {c : TrimLedger} (hm : CanDelete m)
    (h₀ : TrimStart s₀) (hrun : ReflTransGen (TrimNext m TrimLedger.Clear) ⟨s₀, [], []⟩ c) :
    TrimOk m s₀ c := by
  have hbooks := invariant_of_run
    (fun c => Books m.fs s₀.inflight s₀.inflightBlks c.state [] c.active c.asked)
    (fun ha hs => books_next hm ha hs) (books_start h₀) hrun
  exact hbooks.ok hm h₀

/-! ### One deletion -/

/-- A disk that can delete. -/
def trimMount : TrimMount := ⟨tinyFs, true, .vblk, fun _ _ _ => false⟩

theorem canDelete_trimMount : CanDelete trimMount := ⟨rfl, fun _ _ _ => rfl⟩

def trimState : TrimState := ⟨[], 0, 0, 0, 0, 0, [], [], []⟩

theorem trimStart_trimState : TrimStart trimState := ⟨rfl, rfl, rfl, rfl, rfl⟩

/-- Inode 7 gives up block 2; the trim is sent when the key is finished. -/
theorem trim_of_run_one :
    ∃ c : TrimLedger, c.active = [] ∧ c.state.tq = [] ∧ c.asked = [⟨2, 16384⟩]
      ∧ TrimOk trimMount trimState c := by
  have hstart : TrimNext trimMount TrimLedger.Clear ⟨trimState, [], []⟩ _ :=
    ⟨.start true 7, trivial, (fun hno => by cases hno), rfl⟩
  have hfree := (ReflTransGen.single hstart).tail
    ⟨.free 2 16384 7 3, Or.inr (Or.inr List.mem_cons_self), (fun _ => by decide), rfl⟩
  have hfinish := hfree.tail
    ⟨.finish true 3, Or.inr List.mem_cons_self, (fun _ => rfl), rfl⟩
  have htask := hfinish.tail ⟨.task 0, trivial, trivial, rfl⟩
  exact ⟨_, rfl, rfl, rfl, trim_of_run canDelete_trimMount trimStart_trimState htask⟩

/-- `dotrimcons` is switched off between the start and the finish: the block is
never given to `ffs_blkfree_cg`, and its request stays in the hash. -/
theorem not_trim_of_run :
    ∃ c : TrimLedger, ReflTransGen (TrimNext trimMount fun _ _ => True) ⟨trimState, [], []⟩ c
      ∧ c.active = [] ∧ c.state.tq = [] ∧ c.asked = [⟨2, 16384⟩]
      ∧ givenBlocks c.state = [] ∧ c.state.trimhash ≠ [] := by
  have hstart : TrimNext trimMount (fun _ _ => True) ⟨trimState, [], []⟩ _ :=
    ⟨.start true 7, trivial, trivial, rfl⟩
  have hfree := (ReflTransGen.single hstart).tail
    ⟨.free 2 16384 7 3, Or.inr (Or.inr List.mem_cons_self), trivial, rfl⟩
  have hfinish := hfree.tail ⟨.finish false 3, Or.inr List.mem_cons_self, trivial, rfl⟩
  exact ⟨_, hfinish, rfl, rfl, rfl, rfl, by decide⟩

end UfsX.Proofs
