import Mathlib.Data.List.Nodup
import UfsX.Lib.Run
import UfsX.Compat.TaskQueue

/-!
# `UfsX.Proofs.TaskQueue`: does the task queue run every task once?

`checkForWork` calls the function of one task after the other and leaves them all on the
list; at the end of the list it starts over. `taskqueue_drain` takes nothing off the list
either, since it hands `delTask` a pointer to the `struct task`.

So the list is the sequence of all tasks that were ever enqueued, and what has been
executed is a prefix of it as long as the loop has not reached the end (`Walk`). In such a
run the queue does what it is for up to the point where its last task is run or drained
(`taskqueue_once`).
-/

set_option autoImplicit false

namespace UfsX.Proofs.TaskQueue

open UfsX.Lib UfsX.Compat.TaskQueue Relation

/-! ### What the queue is for -/

/-- What the call of a task's function is to look like in the record. -/
def Entry.run (e : Entry) : Nat × Nat × Nat := (e.id, e.func, e.context)

/-- The tasks that are still to be run. -/
def pending (s : St) : List Entry := s.unstarted.filter fun e => !s.drained.contains e.id

/-- The work loop sleeps and nobody is about to wake it. -/
def Idle (s : St) : Prop := s.signals = 0 ∧ s.workToDo = false ∧ s.more = false

/-- The queue has run tasks in the order of enqueueing with the arguments they were
initialized with, none twice and none that was drained; it is empty when no task is
pending; and the loop does not sleep over a pending task. -/
structure Ok (s : St) : Prop where
  intact : s.corrupt = false
  ran : s.executed.Sublist (s.entered.map Entry.run)
  once : (s.executed.map (·.1)).Nodup
  drained : ∀ x ∈ s.executed, x.1 ∉ s.drained
  empty : pending s = [] → s.queue.worklist = []
  awake : Idle s → pending s = []

/-- The task that the loop runs next was not drained, and another one is left; a task that
is drained was enqueued before, the word behind it is even, and a task is left. -/
def Meets (s : St) : Act → Prop
  | .work => ∀ e rest, s.unstarted = e :: rest → e.id ∉ s.drained ∧ ∃ e' ∈ rest, e'.id ∉ s.drained
  | .drain t word =>
      (s.tasks t).priv ≠ none ∧ word % 2 = 0 ∧ (s.entered = [] ∨ ∃ e ∈ pending s, e.task ≠ t)
  | .drainAll => s.entered = []
  | _ => True

/-- One step. `P` restricts the steps. -/
def Step (P : St → Act → Prop) (s s' : St) : Prop := ∃ a, P s a ∧ step s a = some s'

/-! ### The walk over the list -/

/-- The element of the list for an entry. -/
def queued (e : Entry) : IOTask := ⟨e.id, e.func, e.context, true⟩

/-- The list is what was ever entered, and the loop has run the first `k` of it. -/
structure Walk (s : St) (k : Nat) : Prop where
  intact : s.corrupt = false
  enabled : s.queue.enabled = true
  list : s.queue.worklist = s.entered.map queued
  filled : ∀ p ∈ s.filled, p.2 = ⟨p.1.id, p.1.func, p.1.context, false⟩
  fresh : ∀ i ∈ s.filled.map (·.1.id) ++ s.entered.map (·.id), i < s.nextId
  nodup : (s.filled.map (·.1.id) ++ s.entered.map (·.id)).Nodup
  priv : ∀ t p, (s.tasks t).priv = some p → p = .task t
  le : k ≤ s.entered.length
  known : ∀ i ∈ s.drained, i ∈ s.entered.map (·.id)
  executed : s.executed = (s.entered.take k).map Entry.run
  current : s.queue.currentTask = (s.entered.take k).getLast?.map (·.id)
  undrained : ∀ e ∈ s.entered.take k, e.id ∉ s.drained
  left : s.entered = [] ∨ ∃ e ∈ s.entered.drop k, e.id ∉ s.drained
  awake : Idle s → s.entered = []

section Walk

variable {s s' : St} {k : Nat}

theorem nodup_entered (h : (s.filled.map (·.1.id) ++ s.entered.map (·.id)).Nodup) :
    (s.entered.map (·.id)).Nodup := (List.nodup_append.mp h).2.1

/-- A filter that drops a prefix. -/
theorem filter_eq_drop {α : Type} {p : α → Bool} {l : List α} {k : Nat} (hno : ∀ e ∈ l.take k, p e = false)
    (hyes : ∀ e ∈ l.drop k, p e = true) : l.filter p = l.drop k :=
  calc l.filter p = (l.take k ++ l.drop k).filter p := by rw [List.take_append_drop]
    _ = l.drop k := by
      rw [List.filter_append, List.filter_eq_self.mpr hyes, List.filter_eq_nil_iff.mpr, List.nil_append]
      intro e he
      simp [hno e he]

/-- Where a prefix of the entries has been run, the rest has not started. -/
theorem unstarted_eq_drop (hnd : (s.entered.map (·.id)).Nodup)
    (hex : s.executed = (s.entered.take k).map Entry.run) : s.unstarted = s.entered.drop k := by
  have hdis : ∀ a ∈ (s.entered.take k).map (·.id), ∀ b ∈ (s.entered.drop k).map (·.id), a ≠ b := by
    rw [← List.take_append_drop k s.entered, List.map_append] at hnd
    exact (List.nodup_append.mp hnd).2.2
  unfold St.unstarted
  rw [hex, List.map_map]
  refine filter_eq_drop ?_ ?_
  · intro e he
    rw [Bool.eq_false_iff]
    intro hall
    simp only [List.all_eq_true, bne_iff_ne] at hall
    exact hall e.id (List.mem_map.mpr ⟨e, he, rfl⟩) rfl
  · intro e he
    simp only [List.all_eq_true, bne_iff_ne]
    rintro i hi rfl
    exact hdis _ hi _ (List.mem_map_of_mem he) rfl

theorem Walk.unstarted (h : Walk s k) : s.unstarted = s.entered.drop k :=
  unstarted_eq_drop (nodup_entered h.nodup) h.executed

theorem mem_pending {e : Entry} : e ∈ pending s ↔ e ∈ s.unstarted ∧ e.id ∉ s.drained := by
  simp [pending]

/-- The successor of the last element of a prefix. -/
theorem tailqNext_queued {front rest : List Entry} {a : Entry}
    (hnd : ((front ++ a :: rest).map (·.id)).Nodup) :
    tailqNext ((front ++ a :: rest).map queued) a.id = rest.head?.map queued := by
  have hne : ∀ x ∈ front.map queued, (fun e : IOTask => e.id != a.id) x = true := by
    intro x hx
    obtain ⟨e, he, rfl⟩ := List.mem_map.mp hx
    rw [List.map_append] at hnd
    exact bne_iff_ne.mpr ((List.nodup_append.mp hnd).2.2 _ (List.mem_map_of_mem he) _
      (List.mem_map_of_mem List.mem_cons_self))
  unfold tailqNext
  rw [List.map_append, List.dropWhile_append_of_pos hne, List.map_cons, List.dropWhile_cons_of_neg (by simp [queued]),
    List.tail_cons, List.head?_map]

/-- The loop runs the first task that has not started. -/
theorem Walk.checkForWork_cons (h : Walk s k) {e : Entry} {rest : List Entry} (hd : s.entered.drop k = e :: rest) :
    checkForWork s.queue = (true, some (queued e), { s.queue with currentTask := some e.id }) := by
  have hsplit := List.take_append_drop k s.entered
  unfold checkForWork
  rw [if_neg (by simp [h.enabled]), h.current]
  cases hlast : (s.entered.take k).getLast? with
  | none =>
      have hfirst : s.queue.worklist.head? = some (queued e) := by
        rw [List.getLast?_eq_none_iff.mp hlast, hd, List.nil_append] at hsplit
        rw [h.list, ← hsplit]
        rfl
      simp only [Option.map_none, hfirst]
      rfl
  | some a =>
      have hnext : tailqNext s.queue.worklist a.id = some (queued e) := by
        obtain ⟨front, hfront⟩ := List.getLast?_eq_some_iff.mp hlast
        rw [hfront, hd, List.append_assoc, List.singleton_append] at hsplit
        have hnd := nodup_entered h.nodup
        rw [← hsplit] at hnd
        rw [h.list, ← hsplit, tailqNext_queued hnd]
        rfl
      simp only [Option.map_some, hnext]
      rfl

theorem Walk.checkForWork_nil (h : Walk s k) (hd : s.entered = []) : checkForWork s.queue = (false, none, s.queue) := by
  unfold checkForWork
  rw [if_neg (by simp [h.enabled]), h.current, h.list, hd]
  simp

/-- What the code has done is what it is for, as far as it got. -/
theorem Walk.ok (h : Walk s k) : Ok s where
  intact := h.intact
  ran := by
    rw [h.executed]
    exact (List.take_sublist k s.entered).map _
  once := by
    rw [h.executed, List.map_map]
    exact (nodup_entered h.nodup).sublist ((List.take_sublist k s.entered).map _)
  drained := by
    intro x hx
    rw [h.executed] at hx
    obtain ⟨e, he, rfl⟩ := List.mem_map.mp hx
    exact h.undrained e he
  empty := by
    intro hp
    rw [h.list]
    obtain hnil | ⟨e, he, hnot⟩ := h.left
    · rw [hnil]
      rfl
    · have : e ∈ pending s := mem_pending.mpr ⟨by rwa [h.unstarted], hnot⟩
      rw [hp] at this
      exact absurd this List.not_mem_nil
  awake := by
    intro hidle
    unfold pending St.unstarted
    rw [h.awake hidle]
    rfl

end Walk

/-! ### One step -/

section Step

variable {s s' : St} {k : Nat}

/-- Entries of one list with the same id are the same. -/
theorem entry_eq (hnd : (s.entered.map (·.id)).Nodup) {e e' : Entry} (he : e ∈ s.entered) (he' : e' ∈ s.entered)
    (hid : e.id = e'.id) : e = e' := List.inj_on_of_nodup_map hnd he he' hid

/-- The `IOTask`s in flight and on the list keep their ids when one goes from the one to
the other. -/
theorem insert_perm {e : Entry × IOTask} (he : e ∈ s.filled) :
    ((s.filled.erase e).map (·.1.id) ++ (s.entered ++ [e.1]).map (·.id)).Perm
      (s.filled.map (·.1.id) ++ s.entered.map (·.id)) := by
  have hperm := (List.perm_cons_erase he).map fun p : Entry × IOTask => p.1.id
  rw [List.map_append, ← List.append_assoc]
  exact (List.perm_append_singleton e.1.id _).trans (by
    rw [← List.cons_append]
    exact hperm.symm.append_right _)

theorem Walk.init (h : Walk s k) (t func context : Nat)
    (hst : step s (.init t func context) = some s') : Walk s' k := by
  obtain rfl := Option.some.inj hst
  refine { h with priv := fun t' p hp => h.priv t' p ?_ }
  by_cases ht : t' = t
  · subst ht
    simpa using hp
  · simpa [Function.update_of_ne ht] using hp

theorem Walk.fill (h : Walk s k) (t : Nat) (hst : step s (.fill t) = some s') : Walk s' k := by
  obtain rfl := Option.some.inj hst
  refine { h with filled := ?_, fresh := ?_, nodup := ?_, priv := ?_ }
  · intro p hp
    rcases List.mem_cons.mp hp with rfl | hp
    · rfl
    · exact h.filled p hp
  · intro i hi
    rw [List.map_cons, List.cons_append] at hi
    rcases List.mem_cons.mp hi with rfl | hi
    · exact Nat.lt_succ_self _
    · exact Nat.lt_succ_of_lt (h.fresh i hi)
  · rw [List.map_cons, List.cons_append, List.nodup_cons]
    exact ⟨fun hmem => absurd (h.fresh _ hmem) (Nat.lt_irrefl _), h.nodup⟩
  · intro t' p hp
    by_cases ht : t' = t
    · subst ht
      simpa [eq_comm] using hp
    · exact h.priv t' p (by simpa [Function.update_of_ne ht] using hp)

theorem Walk.insert (h : Walk s k) (e : Entry × IOTask) (hst : step s (.insert e) = some s') : Walk s' k := by
  simp only [step] at hst
  split at hst
  · next he =>
      obtain rfl := Option.some.inj hst
      have hperm := insert_perm he
      have hnd := hperm.nodup_iff.mpr h.nodup
      have hnew : e.1.id ∉ s.entered.map (·.id) := by
        have hent := (List.nodup_append.mp hnd).2.1
        rw [List.map_append, List.nodup_append] at hent
        exact fun hmem => hent.2.2 _ hmem _ (List.mem_singleton_self _) rfl
      have htake : (s.entered ++ [e.1]).take k = s.entered.take k := List.take_append_of_le_length h.le
      have hdrop : (s.entered ++ [e.1]).drop k = s.entered.drop k ++ [e.1] := List.drop_append_of_le_length h.le
      constructor
      · exact h.intact
      · unfold enqueueTask
        split
        · exact h.enabled
        · exact h.enabled
      · unfold enqueueTask
        rw [h.filled e he, if_neg (by simp), h.list, List.map_append]
        rfl
      · exact fun p hp => h.filled p (List.mem_of_mem_erase hp)
      · exact fun i hi => h.fresh i (hperm.mem_iff.mp hi)
      · exact hnd
      · exact h.priv
      · rw [List.length_append]
        exact Nat.le_add_right_of_le h.le
      · intro i hi
        rw [List.map_append]
        exact List.mem_append_left _ (h.known i hi)
      · rw [htake]
        exact h.executed
      · rw [htake]
        unfold enqueueTask
        split
        · exact h.current
        · exact h.current
      · rw [htake]
        exact h.undrained
      · right
        rw [hdrop]
        exact ⟨e.1, List.mem_append_right _ (List.mem_singleton_self _), fun hmem => hnew (h.known _ hmem)⟩
      · rintro ⟨hsig, -⟩
        exact absurd hsig (Nat.succ_ne_zero _)
  · cases hst

theorem Walk.signal (h : Walk s k) (hst : step s .signal = some s') : Walk s' k := by
  simp only [step] at hst
  split at hst
  · obtain rfl := Option.some.inj hst
    exact { h with awake := fun hidle => absurd hidle.2.1 (by simp) }
  · cases hst

/-- Tasks that have not started are drained; one that was not drained is left. -/
theorem Walk.drainIds (h : Walk s k) {ids : List Nat} (hids : ∀ i ∈ ids, i ∈ (s.entered.drop k).map (·.id))
    (hleft : s.entered = [] ∨ ∃ e ∈ s.entered.drop k, e.id ∉ s.drained ∧ e.id ∉ ids) :
    Walk { s with drained := s.drained ++ ids } k := by
  have hnd := nodup_entered h.nodup
  refine { h with known := ?_, undrained := ?_, left := ?_ }
  · intro i hi
    rcases List.mem_append.mp hi with hi | hi
    · exact h.known i hi
    · exact ((List.drop_sublist k s.entered).map _).subset (hids i hi)
  · intro e he hmem
    rcases List.mem_append.mp hmem with hmem | hmem
    · exact h.undrained e he hmem
    · rw [← List.take_append_drop k s.entered, List.map_append] at hnd
      exact (List.nodup_append.mp hnd).2.2 _ (List.mem_map_of_mem he) _ (hids _ hmem) rfl
  · refine hleft.imp_right ?_
    rintro ⟨e, he, hno, hno'⟩
    exact ⟨e, he, by simp [hno, hno']⟩

/-- `delTask` through the pointer that `taskqueue_enqueue` has left. -/
theorem Walk.delTask (h : Walk s k) {t word : Nat} (hpriv : (s.tasks t).priv ≠ none) :
    ((s.tasks t).priv.bind fun p => delTask s.queue p word) = if word % 2 = 0 then some s.queue else none := by
  cases hp : (s.tasks t).priv with
  | none => exact absurd hp hpriv
  | some p =>
      obtain rfl := h.priv t p hp
      rfl

theorem Walk.drain (h : Walk s k) {t word : Nat} (hm : Meets s (.drain t word))
    (hst : step s (.drain t word) = some s') : Walk s' k := by
  obtain ⟨hpriv, hword, hleft⟩ := hm
  simp only [step, h.delTask hpriv, if_pos hword] at hst
  obtain rfl := Option.some.inj hst
  refine h.drainIds (fun i hi => ?_) (hleft.imp_right ?_)
  · obtain ⟨e, he, rfl⟩ := List.mem_map.mp hi
    rw [h.unstarted] at he
    exact List.mem_map_of_mem (List.mem_filter.mp he).1
  · rintro ⟨e, he, htask⟩
    obtain ⟨he, hno⟩ := mem_pending.mp he
    rw [h.unstarted] at he ⊢
    refine ⟨e, he, hno, fun hmem => ?_⟩
    obtain ⟨e', he', hid⟩ := List.mem_map.mp hmem
    obtain ⟨he', ht'⟩ := List.mem_filter.mp he'
    have hsub := (List.drop_sublist k s.entered).subset
    obtain rfl := entry_eq (nodup_entered h.nodup) (hsub he') (hsub he) hid
    exact htask (beq_iff_eq.mp ht')

theorem Walk.drainAll (h : Walk s k) (hm : Meets s .drainAll) (hst : step s .drainAll = some s') : Walk s' k := by
  obtain rfl := Option.some.inj hst
  refine h.drainIds (fun i hi => ?_) (.inl hm)
  rwa [h.unstarted] at hi

theorem drop_succ_of_cons {l : List Entry} {e : Entry} {rest : List Entry} (hd : l.drop k = e :: rest) :
    l.drop (k + 1) = rest := by rw [← List.tail_drop, hd, List.tail_cons]

theorem take_succ_of_cons {l : List Entry} {e : Entry} {rest : List Entry} (hd : l.drop k = e :: rest) :
    l.take (k + 1) = l.take k ++ [e] := by
  rw [List.take_add, hd]
  rfl

/-- The loop runs the first task that has not started. -/
theorem Walk.work_cons (h : Walk s k) {e : Entry} {rest : List Entry} (hd : s.entered.drop k = e :: rest)
    (hst : step s .work = some s') :
    s' = { s with
      queue := { s.queue with currentTask := some e.id }, more := true, workToDo := false
      executed := s.executed ++ [Entry.run e] } := by
  simp only [step] at hst
  split at hst
  · rw [h.checkForWork_cons hd] at hst
    exact (Option.some.inj hst).symm
  · cases hst

theorem Walk.executed_cons (h : Walk s k) {e : Entry} {rest : List Entry} (hd : s.entered.drop k = e :: rest) :
    s.executed ++ [Entry.run e] = (s.entered.take (k + 1)).map Entry.run := by
  rw [take_succ_of_cons hd, List.map_append, ← h.executed]
  rfl

theorem Walk.unstarted_cons (h : Walk s k) {e : Entry} {rest : List Entry} (hd : s.entered.drop k = e :: rest)
    {t : St} (hent : t.entered = s.entered) (hex : t.executed = s.executed ++ [Entry.run e]) : t.unstarted = rest := by
  rw [unstarted_eq_drop (k := k + 1), hent, drop_succ_of_cons hd]
  · rw [hent]
    exact nodup_entered h.nodup
  · rw [hent, hex, h.executed_cons hd]

theorem Walk.work (h : Walk s k) (hm : Meets s .work) (hst : step s .work = some s') : ∃ k', Walk s' k' := by
  cases hd : s.entered.drop k with
  | nil =>
      -- nothing was ever entered
      have hnil : s.entered = [] := by
        rcases h.left with hnil | ⟨e, he, -⟩
        · exact hnil
        · rw [hd] at he
          exact absurd he List.not_mem_nil
      simp only [step, h.checkForWork_nil hnil] at hst
      split at hst
      · obtain rfl := Option.some.inj hst
        refine ⟨k, { h with executed := ?_, awake := fun _ => hnil }⟩
        simpa using h.executed
      · cases hst
  | cons e rest =>
      obtain rfl := h.work_cons hd hst
      obtain ⟨hno, hleft⟩ := hm e rest (by rw [h.unstarted, hd])
      have htake := take_succ_of_cons hd
      refine ⟨k + 1, { h with
        le := ?_, executed := h.executed_cons hd, current := ?_, undrained := ?_,
        left := .inr (by rwa [drop_succ_of_cons hd]), awake := ?_ }⟩
      · by_contra hge
        rw [List.drop_eq_nil_of_le (show s.entered.length ≤ k from Nat.le_of_lt_succ (Nat.lt_of_not_le hge))] at hd
        cases hd
      · rw [htake, List.getLast?_concat]
        rfl
      · intro e' he'
        rw [htake] at he'
        rcases List.mem_append.mp he' with he' | he'
        · exact h.undrained e' he'
        · rw [List.mem_singleton.mp he']
          exact hno
      · rintro ⟨-, -, hmore⟩
        cases hmore

theorem Walk.step (h : Walk s k) {a : Act} (hm : Meets s a) (hst : Compat.TaskQueue.step s a = some s') :
    ∃ k', Walk s' k' := by
  cases a with
  | init t func context => exact ⟨k, h.init t func context hst⟩
  | fill t => exact ⟨k, h.fill t hst⟩
  | insert e => exact ⟨k, h.insert e hst⟩
  | signal => exact ⟨k, h.signal hst⟩
  | drain t word => exact ⟨k, h.drain hm hst⟩
  | drainAll => exact ⟨k, h.drainAll hm hst⟩
  | work => exact h.work hm hst

/-- When nothing is pending on a list that is not empty, the queue has failed. -/
theorem not_ok_of_pending (hlist : s.queue.worklist ≠ []) (hno : ∀ e ∈ s.unstarted, e.id ∈ s.drained) : ¬ Ok s := by
  intro hok
  refine hlist (hok.empty (List.eq_nil_iff_forall_not_mem.mpr fun e he => ?_))
  obtain ⟨he, hnot⟩ := mem_pending.mp he
  exact hnot (hno e he)

theorem Walk.list_ne_nil (h : Walk s k) (hne : s.entered ≠ []) : s.queue.worklist ≠ [] := by
  rw [h.list]
  exact fun hnil => hne (List.map_eq_nil_iff.mp hnil)

theorem Walk.not_ok_work (h : Walk s k) (hm : ¬ Meets s .work) (hst : Compat.TaskQueue.step s .work = some s') :
    ¬ Ok s' := by
  have hm : ∃ e rest, s.unstarted = e :: rest ∧ (e.id ∉ s.drained → ∀ e' ∈ rest, e'.id ∈ s.drained) := by
    simp only [Meets] at hm
    push Not at hm
    exact hm
  obtain ⟨e, rest, hun, hlast⟩ := hm
  have hd : s.entered.drop k = e :: rest := by rw [← h.unstarted, hun]
  have heq := h.work_cons hd hst
  have hent : s'.entered = s.entered := by rw [heq]
  have hex : s'.executed = s.executed ++ [Entry.run e] := by rw [heq]
  have hdrained : s'.drained = s.drained := by rw [heq]
  by_cases hdr : e.id ∈ s.drained
  · -- a task runs that was drained
    intro hok
    refine hok.drained (Entry.run e) ?_ (by rwa [hdrained])
    rw [hex]
    exact List.mem_append_right _ (List.mem_singleton_self _)
  · refine not_ok_of_pending ?_ fun e' he' => ?_
    · rw [heq]
      refine h.list_ne_nil fun hnil => ?_
      rw [hnil, List.drop_nil] at hd
      cases hd
    · rw [h.unstarted_cons hd hent hex] at he'
      rw [hdrained]
      exact hlast hdr e' he'

theorem Walk.not_ok_drain (h : Walk s k) {t word : Nat} (hm : ¬ Meets s (.drain t word))
    (hst : Compat.TaskQueue.step s (.drain t word) = some s') : ¬ Ok s' := by
  by_cases hpriv : (s.tasks t).priv = none
  · simp only [Compat.TaskQueue.step, hpriv, Option.bind_none] at hst
    obtain rfl := Option.some.inj hst
    exact fun hok => absurd hok.intact (by simp)
  · by_cases hword : word % 2 = 0
    · simp only [Compat.TaskQueue.step, h.delTask hpriv, if_pos hword] at hst
      obtain rfl := Option.some.inj hst
      have hm : s.entered ≠ [] ∧ ∀ e ∈ pending s, e.task = t := by
        simp only [Meets, not_and, not_or] at hm
        obtain ⟨hne, hall⟩ := hm hpriv hword
        exact ⟨hne, by push Not at hall; exact hall⟩
      refine not_ok_of_pending (h.list_ne_nil hm.1) fun e he => ?_
      by_cases hdr : e.id ∈ s.drained
      · exact List.mem_append_left _ hdr
      · refine List.mem_append_right _ (List.mem_map.mpr ⟨e, List.mem_filter.mpr ⟨he, ?_⟩, rfl⟩)
        exact beq_iff_eq.mpr (hm.2 e (mem_pending.mpr ⟨he, hdr⟩))
    · simp only [Compat.TaskQueue.step, h.delTask hpriv, if_neg hword] at hst
      obtain rfl := Option.some.inj hst
      exact fun hok => absurd hok.intact (by simp)

theorem Walk.not_ok_drainAll (h : Walk s k) (hm : ¬ Meets s .drainAll)
    (hst : Compat.TaskQueue.step s .drainAll = some s') : ¬ Ok s' := by
  obtain rfl := Option.some.inj hst
  exact not_ok_of_pending (h.list_ne_nil hm) fun e he => List.mem_append_right _ (List.mem_map_of_mem he)

/-- A step keeps the promise exactly when it meets the condition. -/
theorem Walk.ok_iff (h : Walk s k) {a : Act} (hst : Compat.TaskQueue.step s a = some s') : Ok s' ↔ Meets s a := by
  constructor
  · intro hok
    by_contra hm
    cases a with
    | work => exact h.not_ok_work hm hst hok
    | drain t word => exact h.not_ok_drain hm hst hok
    | drainAll => exact h.not_ok_drainAll hm hst hok
    | init t func context => exact hm trivial
    | fill t => exact hm trivial
    | insert e => exact hm trivial
    | signal => exact hm trivial
  · intro hm
    obtain ⟨k', hk'⟩ := h.step hm hst
    exact hk'.ok

end Step

/-! ### Runs -/

theorem walk_start : Walk start 0 where
  intact := rfl
  enabled := rfl
  list := rfl
  filled := fun _ hp => absurd hp List.not_mem_nil
  fresh := fun _ hi => absurd hi List.not_mem_nil
  nodup := List.nodup_nil
  priv := fun _ _ hp => by cases hp
  le := Nat.le_refl 0
  known := fun _ hi => absurd hi List.not_mem_nil
  executed := rfl
  current := rfl
  undrained := fun _ he => absurd he List.not_mem_nil
  left := .inl rfl
  awake := fun _ => rfl

/-- In a run whose steps meet the condition the queue keeps its promise in every state,
the next step keeps it exactly when it meets the condition, and the work loop never comes
to rest once a task was enqueued. -/
theorem taskqueue_once {s : St} (hrun : ReflTransGen (Step Meets) start s) :
    Ok s ∧ (Idle s → s.entered = []) ∧ ∀ a s', step s a = some s' → (Ok s' ↔ Meets s a) := by
  obtain ⟨k, hk⟩ := invariant_of_run (fun s => ∃ k, Walk s k)
    (fun ⟨_, hk⟩ ⟨_, hm, hst⟩ => hk.step hm hst) ⟨0, walk_start⟩ hrun
  exact ⟨hk.ok, hk.awake, fun a s' hst => hk.ok_iff hst⟩

/-- A step that the condition leaves alone. -/
def enqueueing (s : St) (a : Act) : Option St :=
  match a with
  | .work | .drain _ _ | .drainAll => none
  | a => step s a

theorem step_of_enqueueing {s s' : St} {a : Act} (h : enqueueing s a = some s') : Step Meets s s' := by
  cases a with
  | init t func context => exact ⟨.init t func context, trivial, h⟩
  | fill t => exact ⟨.fill t, trivial, h⟩
  | insert e => exact ⟨.insert e, trivial, h⟩
  | signal => exact ⟨.signal, trivial, h⟩
  | drain t word => cases h
  | drainAll => cases h
  | work => cases h

/-- `TASK_INIT` and `taskqueue_enqueue` of task `t`, the first call of it. -/
def enqueue (t func context : Nat) : List Act :=
  [.init t func context, .fill t, .insert (⟨t, t, func, context⟩, ⟨t, func, context, false⟩), .signal]

/-- Two tasks are enqueued and the loop runs the first. -/
theorem taskqueue_once_two : ∃ s, ReflTransGen (Step Meets) start s ∧ s.executed = [(0, 7, 70)] ∧ Ok s := by
  obtain ⟨s, hs, hmore, hex⟩ : ∃ s, moves enqueueing (enqueue 0 7 70 ++ enqueue 1 8 80) start = some s ∧
      s.unstarted = [⟨0, 0, 7, 70⟩, ⟨1, 1, 8, 80⟩] ∧ s.drained = [] ∧
      ((step s .work).map (·.executed)) = some [(0, 7, 70)] := ⟨_, rfl, rfl, rfl, rfl⟩
  obtain ⟨s', hst, hex'⟩ := Option.map_eq_some_iff.mp hex.2
  have hrun := (run_of_moves enqueueing step_of_enqueueing _ hs).tail (c := s') ⟨.work, ?_, hst⟩
  · exact ⟨s', hrun, hex', (taskqueue_once hrun).1⟩
  · rintro e rest heq
    rw [hmore] at heq
    obtain ⟨rfl, rfl⟩ := List.cons.inj heq
    rw [hex.1]
    exact ⟨List.not_mem_nil, _, List.mem_singleton_self _, List.not_mem_nil⟩

/-- One task is enqueued. The third call of `checkForWork` runs it for the second time. -/
theorem taskqueue_twice : ¬ ∀ s, ReflTransGen (Step fun _ _ => True) start s → Ok s := by
  intro hall
  obtain ⟨s, hs, hex⟩ : ∃ s, moves step (enqueue 0 7 70 ++ [.work, .work, .work]) start = some s ∧
      s.executed = [(0, 7, 70), (0, 7, 70)] := ⟨_, rfl, rfl⟩
  have honce := (hall s (run_of_moves step (fun h => ⟨_, trivial, h⟩) _ hs)).once
  rw [hex] at honce
  exact absurd honce (by decide)

end UfsX.Proofs.TaskQueue
