import UfsX.Ffs.IallocCritical
import UfsX.Lib.EraseWalk
import UfsX.Lib.Run

/-!
# `UfsX.Proofs.IallocCritical`: what becomes of the nodes of the critical list

In every state that calls lead to, the nodes of the list have different addresses and
different inode numbers, and two references each (`inv_of_run`). From this `ino_exists` and
`ino_remove` are right. The loop of `ialloc_critical_free` is the walk of
`UfsX.Lib.EraseWalk`: it passes over every second node (`freeLoop_eq`), so that
everything is released exactly when there is one node at most.
-/

set_option autoImplicit false

namespace UfsX.Proofs.IallocCritical

open UfsX.Lib UfsX.Ffs.IallocCritical

/-- `ialloc_critical_free` takes every node off the list, and frees each of them once. -/
structure FreesAll (crit : Crit) : Prop where
  left : (iallocCriticalFree crit).1 = []
  once : ∀ node ∈ crit.list, (iallocCriticalFree crit).2.freed.count node.id = 1

/-- `ino_remove` takes the node with the number off the list, and frees it once. -/
structure RemovesOne (crit : Crit) (ino : UInt64) : Prop where
  list : (inoRemove crit ino).list = crit.list.filter fun node => node.ino ≠ ino
  freed : ∀ node ∈ crit.list, (inoRemove crit ino).freed.count node.id = if node.ino = ino then 1 else 0

/-- `ino_exists` finds a node with the number if there is one. -/
structure Finds (crit : Crit) (ino : UInt64) : Prop where
  isSome_iff : (inoExists crit.list ino).isSome ↔ ∃ node ∈ crit.list, node.ino = ino
  found : ∀ node index, inoExists crit.list ino = some (node, index) →
    crit.list[index]? = some node ∧ node.ino = ino

/-- What holds after any calls. -/
structure Inv (crit : Crit) : Prop where
  ids : (crit.list.map Node.id).Nodup
  inos : (crit.list.map Node.ino).Nodup
  refs : ∀ node ∈ crit.list, crit.refs node.id = 2
  listed_lt : ∀ node ∈ crit.list, node.id < crit.next
  freed_lt : ∀ id ∈ crit.freed, id < crit.next
  alive : ∀ node ∈ crit.list, node.id ∉ crit.freed

/-! ### `ino_exists` -/

theorem existsLoop_some {list : List Node} {ino : UInt64} {i : Nat} {node : Node} {index : Nat}
    (h : existsLoop list ino i = some (node, index)) : list[index]? = some node ∧ node.ino = ino := by
  fun_induction existsLoop list ino i with
  | case1 i hi hino =>
      obtain ⟨rfl, rfl⟩ := Prod.mk.inj (Option.some.inj h)
      exact ⟨List.getElem?_eq_getElem hi, hino⟩
  | case2 i hi hino ih => exact ih h
  | case3 i hi => cases h

theorem existsLoop_isSome {list : List Node} {ino : UInt64} {i j : Nat} (hij : i ≤ j) (hj : j < list.length)
    (hino : list[j].ino = ino) : (existsLoop list ino i).isSome := by
  fun_induction existsLoop list ino i with
  | case1 i hi hhere => rfl
  | case2 i hi hhere ih =>
      -- the loop does not pass `j`
      have hne : i ≠ j := by
        intro heq
        subst heq
        exact hhere hino
      exact ih (by omega)
  | case3 i hi => omega

theorem finds (crit : Crit) (ino : UInt64) : Finds crit ino where
  isSome_iff := by
    constructor
    · intro h
      obtain ⟨⟨node, index⟩, hsome⟩ := Option.isSome_iff_exists.mp h
      obtain ⟨hget, hino⟩ := existsLoop_some hsome
      exact ⟨node, List.mem_of_getElem? hget, hino⟩
    · intro h
      obtain ⟨node, hmem, hino⟩ := h
      obtain ⟨j, hj, rfl⟩ := List.mem_iff_getElem.mp hmem
      exact existsLoop_isSome (Nat.zero_le j) hj hino
  found _ _ h := existsLoop_some h

theorem inoExists_none_iff {crit : Crit} {ino : UInt64} :
    inoExists crit.list ino = none ↔ ∀ node ∈ crit.list, node.ino ≠ ino := by
  have h := (finds crit ino).isSome_iff
  rw [← Option.not_isSome_iff_eq_none, h]
  push Not
  rfl

/-! ### Taking a node out -/

section Remove

variable {crit : Crit} {i : Nat} {node : Node}

/-- The array's reference is not the last one. -/
theorem removeObject_eq (hget : crit.list[i]? = some node) (href : crit.refs node.id = 2) :
    crit.removeObject i
      = { crit with list := crit.list.eraseIdx i, refs := Function.update crit.refs node.id 1 } := by
  simp [Crit.removeObject, hget, Crit.release, href]

/-- The two references are dropped, and the node is freed. -/
theorem inoRemove_eq {ino : UInt64} (h : Inv crit) (hfound : inoExists crit.list ino = some (node, i)) :
    inoRemove crit ino
      = { crit with
          list := crit.list.filter fun other => other.ino ≠ ino
          refs := Function.update crit.refs node.id 0
          freed := node.id :: crit.freed } := by
  obtain ⟨hget, hino⟩ := (finds crit ino).found node i hfound
  have href := h.refs node (List.mem_of_getElem? hget)
  have hlist := eraseIdx_eq_filter h.inos hget
  rw [hino] at hlist
  simp only [inoRemove, hfound, removeObject_eq hget href, Crit.release, Function.update_self,
    Nat.sub_self, ↓reduceIte, Crit.free, Function.update_idem, hlist]

theorem id_ne_of_ino_ne (h : Inv crit) {other : Node} (hmem : node ∈ crit.list) (hother : other ∈ crit.list)
    (hne : other.ino ≠ node.ino) : other.id ≠ node.id := by
  intro heq
  have hsame := List.inj_on_of_nodup_map h.ids hother hmem heq
  rw [hsame] at hne
  exact hne rfl

theorem removesOne (h : Inv crit) (ino : UInt64) : RemovesOne crit ino := by
  cases hfound : inoExists crit.list ino with
  | none =>
      have hnone := inoExists_none_iff.mp hfound
      have hself : inoRemove crit ino = crit := by simp only [inoRemove, hfound]
      rw [inoExists_none_iff] at hfound
      refine ⟨?_, ?_⟩
      · rw [hself]
        exact (List.filter_eq_self.mpr fun node hmem => decide_eq_true (hnone node hmem)).symm
      · intro node hmem
        rw [hself, if_neg (hnone node hmem), List.count_eq_zero]
        exact h.alive node hmem
  | some r =>
      obtain ⟨node, i⟩ := r
      obtain ⟨hget, hino⟩ := (finds crit ino).found node i hfound
      have hmem := List.mem_of_getElem? hget
      refine ⟨?_, ?_⟩
      · rw [inoRemove_eq h hfound]
      · intro other hother
        rw [inoRemove_eq h hfound]
        show (node.id :: crit.freed).count other.id = _
        -- no node of the list was freed before
        have hold : crit.freed.count other.id = 0 := List.count_eq_zero.mpr (h.alive other hother)
        rw [List.count_cons, hold, Nat.zero_add]
        by_cases hsame : other.ino = ino
        · have heq := List.inj_on_of_nodup_map h.inos hother hmem (hsame.trans hino.symm)
          rw [if_pos hsame, heq, beq_self_eq_true, if_pos rfl]
        · have hne := id_ne_of_ino_ne h hmem hother (by rwa [hino])
          rw [if_neg hsame, if_neg (by simpa using hne.symm)]

end Remove

/-! ### The calls keep the invariant -/

section Calls

variable {crit crit' : Crit} {ino : UInt64}

theorem inv_new : Inv iallocCriticalNew where
  ids := List.nodup_nil
  inos := List.nodup_nil
  refs := by intro node hmem; cases hmem
  listed_lt := by intro node hmem; cases hmem
  freed_lt := by intro id hmem; cases hmem
  alive := by intro node hmem; cases hmem

theorem nodup_snoc {κ : Type} {key : Node → κ} {list : List Node} {node : Node} (h : (list.map key).Nodup)
    (hne : ∀ other ∈ list, key other ≠ key node) : ((list ++ [node]).map key).Nodup := by
  rw [List.map_append, List.map_singleton, List.nodup_append]
  refine ⟨h, List.nodup_singleton _, ?_⟩
  intro k hk k' hk' heq
  obtain ⟨other, hmem, rfl⟩ := List.mem_map.mp hk
  exact hne other hmem (heq.trans (List.mem_singleton.mp hk'))

theorem inoInsert_eq (crit : Crit) (ino : UInt64) :
    inoInsert crit ino
      = ⟨crit.list ++ [⟨crit.next, ino, 0⟩], Function.update crit.refs crit.next 2, crit.freed, crit.next + 1⟩ := by
  simp only [inoInsert, Crit.setObject, Function.update_self, Function.update_idem]

/-- A new node has an address of its own. -/
theorem Inv.enter (h : Inv crit) (henter : iallocCriticalEnter crit ino = some crit') : Inv crit' := by
  unfold iallocCriticalEnter at henter
  split at henter
  · cases henter
  · next hnone =>
      obtain rfl := Option.some.inj henter
      rw [Option.not_isSome_iff_eq_none, inoExists_none_iff] at hnone
      rw [inoInsert_eq]
      -- all addresses so far are below that of the new node
      constructor
      · exact nodup_snoc h.ids fun node hmem => Nat.ne_of_lt (h.listed_lt node hmem)
      · exact nodup_snoc h.inos hnone
      · intro node hmem
        show Function.update crit.refs crit.next 2 node.id = 2
        rcases List.mem_append.mp hmem with hold | hnew
        · have hlt := h.listed_lt node hold
          rw [Function.update_of_ne (by omega)]
          exact h.refs node hold
        · rw [List.mem_singleton.mp hnew, Function.update_self]
      · intro node hmem
        show node.id < crit.next + 1
        rcases List.mem_append.mp hmem with hold | hnew
        · have hlt := h.listed_lt node hold
          omega
        · rw [List.mem_singleton.mp hnew]
          exact Nat.lt_succ_self _
      · intro id hid
        have hlt := h.freed_lt id hid
        exact Nat.lt_succ_of_lt hlt
      · intro node hmem hfreed
        rcases List.mem_append.mp hmem with hold | hnew
        · exact h.alive node hold hfreed
        · rw [List.mem_singleton.mp hnew] at hfreed
          have hlt := h.freed_lt crit.next hfreed
          omega

theorem Inv.leave (h : Inv crit) (hleave : iallocCriticalLeave crit ino = some crit') : Inv crit' := by
  unfold iallocCriticalLeave at hleave
  split at hleave
  · next hsome =>
      obtain rfl := Option.some.inj hleave
      obtain ⟨⟨node, i⟩, hfound⟩ := Option.isSome_iff_exists.mp hsome
      obtain ⟨hget, hino⟩ := (finds crit ino).found node i hfound
      have hmem := List.mem_of_getElem? hget
      -- another node that stays has another address
      have hother : ∀ other ∈ crit.list.filter fun other => other.ino ≠ ino,
          other ∈ crit.list ∧ other.id ≠ node.id := by
        intro other hstays
        obtain ⟨hin, hne⟩ := List.mem_filter.mp hstays
        exact ⟨hin, id_ne_of_ino_ne h hmem hin (by rw [hino]; exact of_decide_eq_true hne)⟩
      rw [inoRemove_eq h hfound]
      constructor
      · exact h.ids.sublist (List.filter_sublist.map Node.id)
      · exact h.inos.sublist (List.filter_sublist.map Node.ino)
      · intro other hstays
        obtain ⟨hin, hne⟩ := hother other hstays
        show Function.update crit.refs node.id 0 other.id = 2
        rw [Function.update_of_ne hne]
        exact h.refs other hin
      · intro other hstays
        exact h.listed_lt other (hother other hstays).1
      · intro id hid
        rcases List.mem_cons.mp hid with rfl | hold
        · exact h.listed_lt node hmem
        · exact h.freed_lt id hold
      · intro other hstays hfreed
        obtain ⟨hin, hne⟩ := hother other hstays
        rcases List.mem_cons.mp hfreed with heq | hold
        · exact hne heq
        · exact h.alive other hin hold
  · cases hleave

/-- A waiter is counted, and nothing else changes. -/
theorem Inv.wait (h : Inv crit) : Inv (iallocCriticalWait crit ino) := by
  unfold iallocCriticalWait
  split
  · exact h
  · next node i hfound =>
      obtain ⟨hget, -⟩ := (finds crit ino).found node i hfound
      obtain ⟨hi, hnode⟩ := List.getElem?_eq_some_iff.mp hget
      -- addresses and inode numbers stay as they are, in their order
      have hmap {κ : Type} (key : Node → κ) (hkey : key { node with waiters := node.waiters + 1 } = key node) :
          (crit.list.set i { node with waiters := node.waiters + 1 }).map key = crit.list.map key := by
        have hi' : i < (crit.list.map key).length := by rwa [List.length_map]
        rw [List.map_set, hkey, ← hnode, ← List.getElem_map key (h := hi'), List.set_getElem_self]
      have hids := hmap Node.id rfl
      have hmem : ∀ other ∈ crit.list.set i { node with waiters := node.waiters + 1 },
          ∃ old ∈ crit.list, old.id = other.id := by
        intro other hother
        have hin : other.id ∈ crit.list.map Node.id := hids ▸ List.mem_map_of_mem hother
        exact List.mem_map.mp hin
      constructor
      · show (List.map Node.id _).Nodup
        rw [hids]
        exact h.ids
      · show (List.map Node.ino _).Nodup
        rw [hmap Node.ino rfl]
        exact h.inos
      · intro other hother
        obtain ⟨old, hold, heq⟩ := hmem other hother
        exact heq ▸ h.refs old hold
      · intro other hother
        obtain ⟨old, hold, heq⟩ := hmem other hother
        exact heq ▸ h.listed_lt old hold
      · exact h.freed_lt
      · intro other hother
        obtain ⟨old, hold, heq⟩ := hmem other hother
        exact heq ▸ h.alive old hold

theorem Inv.exec (h : Inv crit) {op : Op} (hexec : op.exec crit = some crit') : Inv crit' := by
  cases op with
  | enter ino => exact h.enter hexec
  | wait ino =>
      obtain rfl := Option.some.inj hexec
      exact h.wait
  | leave ino => exact h.leave hexec

/-- One call of any kind. -/
def Moved (crit crit' : Crit) : Prop := ∃ op : Op, op.exec crit = some crit'

theorem inv_of_run (ops : List Op) (hrun : moves Op.exec ops iallocCriticalNew = some crit) : Inv crit := by
  have hmoved : Relation.ReflTransGen Moved iallocCriticalNew crit :=
    run_of_moves Op.exec (fun hexec => ⟨_, hexec⟩) ops hrun
  exact invariant_of_run Inv (fun h hstep => hstep.elim fun _ hexec => h.exec hexec) inv_new hmoved

end Calls

/-! ### `ialloc_critical_free` -/

/-- The loop takes out and frees the nodes that the walk comes to. -/
theorem freeLoop_eq (crit : Crit) (i : Nat) (hids : (crit.list.map Node.id).Nodup)
    (href : ∀ node ∈ crit.list, crit.refs node.id = 2) :
    (freeLoop crit i).list = (eraseWalk crit.list i).1
      ∧ (freeLoop crit i).freed = ((eraseWalk crit.list i).2.map Node.id).reverse ++ crit.freed := by
  fun_induction freeLoop crit i with
  | case1 crit i hi ih =>
      -- the array drops one reference, and the free behind it the other
      have hget : crit.list[i]? = some crit.list[i] := List.getElem?_eq_getElem hi
      have hstep := removeObject_eq hget (href _ (List.getElem_mem hi))
      have hrest := eraseIdx_eq_filter hids hget
      have hsub : crit.list.eraseIdx i ⊆ crit.list := List.eraseIdx_subset
      rw [hstep] at ih ⊢
      have hnext := ih (hids.sublist ((List.eraseIdx_sublist _ _).map Node.id)) ?_
      · rw [eraseWalk, dif_pos hi]
        refine ⟨hnext.1, ?_⟩
        rw [hnext.2]
        simp [Crit.free]
      · intro node hmem
        show Function.update crit.refs crit.list[i].id 1 node.id = 2
        have hstays : node ∈ crit.list.filter fun other => other.id ≠ crit.list[i].id := hrest ▸ hmem
        rw [Function.update_of_ne (of_decide_eq_true (List.mem_filter.mp hstays).2)]
        exact href node (hsub hmem)
  | case2 crit i hi =>
      rw [eraseWalk, dif_neg hi]
      simp

theorem freesAll_iff {crit : Crit} (h : Inv crit) : FreesAll crit ↔ crit.list.length ≤ 1 := by
  obtain ⟨hlist, hfreed⟩ := freeLoop_eq crit 0 h.ids h.refs
  rw [eraseWalk_zero] at hlist hfreed
  constructor
  · intro hall
    have hleft : (freeLoop crit 0).list = [] := hall.left
    rw [hlist] at hleft
    exact odds_eq_nil_iff.mp hleft
  · intro hlen
    have hnone : (freeLoop crit 0).list = [] := hlist.trans (odds_eq_nil_iff.mpr hlen)
    have hend : (iallocCriticalFree crit).2.freed = (freeLoop crit 0).freed := by
      simp only [iallocCriticalFree, listFree, hnone, List.foldl_nil]
    refine ⟨hnone, ?_⟩
    intro node hmem
    have hold : crit.freed.count node.id = 0 := List.count_eq_zero.mpr (h.alive node hmem)
    -- the list is the node alone
    have hone : crit.list = [node] := by
      match crit.list, hmem, hlen with
      | [only], hmem, _ => rw [List.mem_singleton.mp hmem]
    rw [hend, hfreed, hone, List.count_append, hold]
    simp [evens]

/-- After any calls, `ialloc_critical_free` releases every node once if and only if there is one
node at most. `ino_exists` and `ino_remove` are right in any case. -/
theorem critical_free_iff (ops : List Op) (crit : Crit) (hrun : moves Op.exec ops iallocCriticalNew = some crit) :
    ((FreesAll crit ∧ ∀ ino, RemovesOne crit ino ∧ Finds crit ino) ↔ crit.list.length ≤ 1)
      ∧ ∀ ino, RemovesOne crit ino ∧ Finds crit ino := by
  have hinv := inv_of_run ops hrun
  have hright (ino : UInt64) : RemovesOne crit ino ∧ Finds crit ino := ⟨removesOne hinv ino, finds crit ino⟩
  rw [← freesAll_iff hinv]
  exact ⟨and_iff_left hright, hright⟩

/-- The list after one `ialloc_critical_enter`. -/
def oneNode : Crit := ⟨[⟨0, 5, 0⟩], Function.update (fun _ => 0) 0 2, [], 1⟩

/-- The list after two. -/
def twoNodes : Crit :=
  ⟨[⟨0, 5, 0⟩, ⟨1, 7, 0⟩], Function.update (Function.update (fun _ => 0) 0 2) 1 2, [], 2⟩

theorem enter_oneNode : iallocCriticalEnter iallocCriticalNew 5 = some oneNode := by
  have hnone : inoExists iallocCriticalNew.list 5 = none := inoExists_none_iff.mpr (by simp [iallocCriticalNew])
  rw [iallocCriticalEnter, hnone, inoInsert_eq]
  rfl

theorem enter_twoNodes : iallocCriticalEnter oneNode 7 = some twoNodes := by
  have hnone : inoExists oneNode.list 7 = none := inoExists_none_iff.mpr (by simp [oneNode])
  rw [iallocCriticalEnter, hnone, inoInsert_eq]
  rfl

theorem run_oneNode : moves Op.exec [.enter 5] iallocCriticalNew = some oneNode := by
  simp only [moves, Op.exec, enter_oneNode, Option.bind_some]

theorem run_twoNodes : moves Op.exec [.enter 5, .enter 7] iallocCriticalNew = some twoNodes := by
  simp only [moves, Op.exec, enter_oneNode, enter_twoNodes, Option.bind_some]

theorem critical_free_one : moves Op.exec [.enter 5] iallocCriticalNew = some oneNode ∧ FreesAll oneNode :=
  ⟨run_oneNode, ((critical_free_iff _ oneNode run_oneNode).1.mpr (by decide)).1⟩

/-- Of two nodes the second one stays. -/
theorem not_critical_free : moves Op.exec [.enter 5, .enter 7] iallocCriticalNew = some twoNodes
    ∧ ¬ FreesAll twoNodes := by
  refine ⟨run_twoNodes, ?_⟩
  intro hall
  have hlen := (freesAll_iff (inv_of_run _ run_twoNodes)).mp hall
  exact absurd hlen (by decide)

end UfsX.Proofs.IallocCritical
