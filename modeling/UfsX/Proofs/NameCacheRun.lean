import UfsX.Lib.Threads
import UfsX.Proofs.LinksRun
import UfsX.Proofs.NameCache

/-!
# `UfsX.Proofs.NameCacheRun`: the name cache over runs of threads

Between the calls of `ufs_create` and `ufs_rmdir` and their ends, entries of the cache may
be wrong: the absence of a name that `ufs_create` is about to cache, and what names a
directory that `ufs_rmdir` is about to purge. `ufs_mkdir`, `ufs_link` and `ufs_remove`
leave the cache as it is, so it must not have an entry of the name that they make false.
-/

set_option autoImplicit false

namespace UfsX.Proofs.NameCache

open Relation UfsX.Lib UfsX.Ufs UfsX.Ufs.Links UfsX.Ufs.NameCache UfsX.Proofs.Links

/-! ### The condition -/

/-- The call ends with an error before it changes a name. -/
def Refused (s : State) : Call → Prop
  | .create dvp _ _ valloc direnter _ =>
      (s.inode dvp).effnlink < 2 ∨ (∃ e, valloc = .error e) ∨ direnter ≠ 0
  | .mkdir dvp _ _ valloc balloc direnter =>
      (s.inode dvp).nlink ≥ UFS_LINK_MAX ∨ (s.inode dvp).effnlink < 2 ∨ (∃ e, valloc = .error e)
        ∨ balloc ≠ 0 ∨ direnter ≠ 0
  | .link vp tdvp _ _ direnter =>
      (s.inode tdvp).effnlink < 2 ∨ (s.inode vp).nlink ≥ UFS_LINK_MAX ∨ (s.inode vp).effnlink = 0
        ∨ ((s.inode vp).immutable ∨ (s.inode vp).append) ∨ direnter ≠ 0
  | .remove dvp vp _ => undeletable s dvp vp = true
  | .rmdir .. => False
  | .rename .. => False

/-- What the cache must not have when the call starts: the absence of a name that is made,
and a vnode under a name that is removed. -/
def NotStale (c : VfsCache) : Call → Prop
  | .create dvp name _ _ _ makeEntry => makeEntry = true ∨ c (dvp, name) ≠ some none
  | .mkdir dvp name _ _ _ _ => c (dvp, name) ≠ some none
  | .link _ tdvp name _ _ => c (tdvp, name) ≠ some none
  | .remove dvp _ name => ∀ v, c (dvp, name) ≠ some (some v)
  | .rmdir .. => True
  | .rename .. => True

variable {τ : Type*} {savename : UInt32}

/-- The condition on a step of the thread `t`. When `ufs_create` gets to `cache_enter`, the
name is still that of the new file. -/
def Meets (s : Sys τ) (t : τ) : Event → Prop
  | .lookup _ => True
  | .start c => Refused s.names.fs c ∨ NotStale s.names.cache c
  | .finish => ∀ dvp name vp, s.pc t = .created dvp name vp true → contents s.names.fs (dvp, name) = some vp

/-! ### Calls under way -/

/-- The entries that a call under way is about to set right. -/
def Excused (pc : τ → Pc) (k : Key) (v : Option Nat) : Prop :=
  ∃ t, (∃ vp, pc t = .created k.1 k.2 vp true ∧ v = none) ∨ ∃ vp, pc t = .removed vp ∧ v = some vp

theorem not_excused_of_idle {pc : τ → Pc} (h : ∀ t, pc t = .idle) (k : Key) (v : Option Nat) :
    ¬ Excused pc k v := by
  rintro ⟨t, ⟨vp, hpc, -⟩ | ⟨vp, hpc, -⟩⟩
  · rw [h t] at hpc
    cases hpc
  · rw [h t] at hpc
    cases hpc

variable [DecidableEq τ]

/-- A thread that begins a call has had nothing to set right. -/
theorem excused_start {pc : τ → Pc} {t : τ} {k : Key} {v : Option Nat} (hidle : pc t = .idle) (p : Pc)
    (h : Excused pc k v) : Excused (Function.update pc t p) k v := by
  obtain ⟨u, hu⟩ := h
  have hne : u ≠ t := by
    rintro rfl
    rw [hidle] at hu
    rcases hu with ⟨vp, hpc, -⟩ | ⟨vp, hpc, -⟩ <;> cases hpc
  exact ⟨u, by rwa [Function.update_of_ne hne]⟩

/-- The invariant of a run. -/
structure Invariant (s : Sys τ) : Prop where
  coherent : Coherent (Excused s.pc) (HasDot s.names.fs) s.names
  creating : ∀ t d name vp makeEntry, s.pc t = .created d name vp makeEntry → HasDot s.names.fs d

theorem Coherent.rebase {excused : Key → Option Nat → Prop} {dirs : Nat → Prop} {n : Names}
    (h : Coherent excused dirs n) : Coherent excused (HasDot n.fs) n :=
  ⟨h.agrees, fun _ hd => hd, fun k v hv => h.dots k.1 (h.known k v hv)⟩

/-! ### The calls up to their ends -/

variable {excused : Key → Option Nat → Prop} {dirs : Nat → Prop} {s s' : State} {c : VfsCache}

/-- A name is made that was not there. -/
theorem Coherent.make {dvp i : Nat} {name : Name} (h : Coherent excused dirs ⟨s, c⟩)
    (hs : contents s' = Function.update (contents s) (dvp, name) (some i))
    (hfree : s.lookup dvp name = none) (hcache : c (dvp, name) = some none → excused (dvp, name) none) :
    Coherent excused dirs ⟨s', c⟩ := by
  refine h.update hs (fun w hw => ?_) fun hname hd => ?_
  · rcases h.agrees _ w hw with hagree | he
    · have hw' : w = none := hagree.trans hfree
      rw [hw'] at hw ⊢
      exact .inr (hcache hw)
    · exact .inr he
  · have hdot : s.lookup dvp dotName = some dvp := h.dots dvp hd
    rw [hname, hdot] at hfree
    cases hfree

theorem lookup_of_lookupIno_none {dvp : Nat} {name : Name} (h : s.lookupIno dvp name = none)
    (hlive : (s.inode dvp).effnlink ≠ 0) : s.lookup dvp name = none := by
  unfold State.lookupIno at h
  rwa [if_neg hlive] at h

theorem coherent_ufsMakeinode {dvp : Nat} {name : Name} {cnFlags : UInt32} {valloc : Except Int Nat}
    {direnter e : Int} (makeEntry : Bool) (h : Coherent excused dirs ⟨s, c⟩) (hfree : s.lookupIno dvp name = none)
    (hcache : ∀ ip, valloc = .ok ip → e = 0 → ¬ Refused s (.create dvp name cnFlags valloc direnter makeEntry) →
      c (dvp, name) = some none → excused (dvp, name) none)
    (hrun : ufsMakeinode savename s dvp name cnFlags false valloc direnter = (.returned e, s')) :
    Coherent excused dirs ⟨s', c⟩ := by
  unfold ufsMakeinode at hrun
  split at hrun
  case isTrue =>
      cases hrun
      exact h
  case isFalse hlive =>
      cases valloc with
      | error x =>
          cases hrun
          exact h
      | ok ip =>
          simp only [] at hrun
          split at hrun
          case isTrue => cases hrun
          case isFalse =>
          split at hrun
          case isTrue =>
              cases hrun
              exact h.congr rfl
          case isFalse herr =>
              cases hrun
              have hgoes : ¬ Refused s (.create dvp name cnFlags (.ok ip) direnter makeEntry) := by
                rintro (h | ⟨x, h⟩ | h)
                · exact hlive h
                · cases h
                · exact herr h
              have hnone := lookup_of_lookupIno_none hfree (by omega)
              exact h.make (contents_enter (s := s.setInode ip (newInode false 1))) hnone
                (hcache ip rfl rfl hgoes)

theorem coherent_ufsLink {vp tdvp : Nat} {name : Name} {cnFlags : UInt32} {direnter e : Int}
    (h : Coherent excused dirs ⟨s, c⟩) (hfree : s.lookupIno tdvp name = none)
    (hcache : ¬ Refused s (.link vp tdvp name cnFlags direnter) → c (tdvp, name) ≠ some none)
    (hrun : ufsLink savename s vp tdvp name cnFlags direnter = (.returned e, s')) : Coherent excused dirs ⟨s', c⟩ := by
  have hstay : ∀ {x : Int} {s₁ : State}, contents s₁ = contents s →
      (Ending.returned x, s₁) = (Ending.returned e, s') → Coherent excused dirs ⟨s', c⟩ := by
    intro x s₁ hs₁ hend
    cases hend
    exact h.congr hs₁
  unfold ufsLink at hrun
  split at hrun
  case isTrue => exact hstay rfl hrun
  case isFalse hlive =>
  split at hrun
  case isTrue => exact hstay rfl hrun
  case isFalse hmax =>
  split at hrun
  case isTrue => exact hstay rfl hrun
  case isFalse hgone =>
  split at hrun
  case isTrue => exact hstay rfl hrun
  case isFalse hflags =>
  simp only [] at hrun
  split at hrun
  case isTrue => cases hrun
  case isFalse =>
  split at hrun
  case isTrue => exact hstay (by simp) hrun
  case isFalse herr =>
      cases hrun
      have hgoes : ¬ Refused s (.link vp tdvp name cnFlags direnter) := by
        rintro (h | h | h | h | h)
        · exact hlive h
        · exact hmax h
        · exact hgone h
        · exact hflags h
        · exact herr h
      have hnone := lookup_of_lookupIno_none hfree (by omega)
      exact h.make (contents_enter (s := s.adjust vp 1 1)) hnone fun hno => absurd hno (hcache hgoes)

/-- An inode that `UFS_VALLOC` hands out has no names in it, and none are cached. -/
theorem Coherent.not_dirs {i : Nat} (h : Coherent excused dirs ⟨s, c⟩) (hfree : s.Free i) : ¬ dirs i := by
  intro hd
  have hdot : s.lookup i dotName = some i := h.dots i hd
  obtain ⟨e, he, -⟩ := Option.map_eq_some_iff.mp hdot
  have hmem := List.mem_of_find?_eq_some he
  have hkey := List.find?_some he
  simp only [decide_eq_true_eq] at hkey
  exact hfree.2.2 e hmem hkey.1

theorem Coherent.not_cached {i : Nat} (h : Coherent excused dirs ⟨s, c⟩) (hno : ¬ dirs i) (name : Name) :
    c (i, name) = none := by
  cases hc : c (i, name) with
  | none => rfl
  | some v => exact absurd (h.known (i, name) v hc) hno

/-- The entries `.` and `..` of a new directory. -/
theorem Coherent.dotsMade {i : Nat} {s₁ : State} (h : Coherent excused dirs ⟨s, c⟩) (hno : ¬ dirs i)
    (hs₁ : contents s₁ = contents s) (dvp : Nat) :
    Coherent excused dirs ⟨(s₁.enter i dotName i).enter i dotdotName dvp, c⟩ := by
  have hdot : Coherent excused dirs ⟨s₁.enter i dotName i, c⟩ :=
    (h.congr hs₁).update_none contents_enter (h.not_cached hno _) fun _ hd => absurd hd hno
  exact hdot.update_none contents_enter (h.not_cached hno _) fun _ hd => absurd hd hno

theorem coherent_ufsMkdir {dvp : Nat} {name : Name} {cnFlags : UInt32} {valloc : Except Int Nat}
    {balloc direnter e : Int}
    (h : Coherent excused dirs ⟨s, c⟩) (hfree : s.lookupIno dvp name = none) (hdvp : dirs dvp)
    (hvalloc : ∀ i, valloc = .ok i → s.Free i)
    (hcache : ¬ Refused s (.mkdir dvp name cnFlags valloc balloc direnter) → c (dvp, name) ≠ some none)
    (hrun : ufsMkdir savename s dvp name cnFlags valloc balloc direnter = (.returned e, s')) : Coherent excused dirs ⟨s', c⟩ := by
  unfold ufsMkdir at hrun
  split at hrun
  case isTrue =>
      cases hrun
      exact h
  case isFalse hmax =>
  split at hrun
  case isTrue =>
      cases hrun
      exact h
  case isFalse hlive =>
  cases valloc with
  | error x =>
      cases hrun
      exact h
  | ok ip =>
      have hno := h.not_dirs (hvalloc ip rfl)
      have hsame : contents ((s.setInode ip (newInode true 2)).adjust dvp 1 1) = contents s := rfl
      have hdots := h.dotsMade hno hsame dvp
      simp only [] at hrun
      split at hrun
      case isTrue =>
          cases hrun
          exact h.congr rfl
      case isFalse hballoc =>
      split at hrun
      case isTrue => cases hrun
      case isFalse =>
      split at hrun
      case isTrue =>
          cases hrun
          exact hdots.congr rfl
      case isFalse herr =>
          cases hrun
          have hgoes : ¬ Refused s (.mkdir dvp name cnFlags (.ok ip) balloc direnter) := by
            rintro (h | h | ⟨x, h⟩ | h | h)
            · exact hmax h
            · exact hlive h
            · cases h
            · exact hballoc h
            · exact herr h
          refine hdots.make contents_enter ?_ fun hcached => absurd hcached (hcache hgoes)
          have hne : dvp ≠ ip := fun heq => hno (heq ▸ hdvp)
          have hnone := lookup_of_lookupIno_none hfree (by omega)
          show contents (((((s.setInode ip (newInode true 2)).adjust dvp 1 1).enter ip dotName ip).enter ip
            dotdotName dvp)) (dvp, name) = none
          have hkey : ∀ n : Name, (dvp, name) ≠ (ip, n) := fun n heq => hne (Prod.mk.inj heq).1
          rw [contents_enter, Function.update_of_ne (hkey _), contents_enter, Function.update_of_ne (hkey _)]
          exact hnone

/-- A name goes that is not that of a directory. -/
theorem coherent_ufsRemove {dvp vp : Nat} {name : Name} {e : Int} (h : Coherent excused dirs ⟨s, c⟩)
    (hdot : name ≠ dotName) (hcache : ¬ Refused s (.remove dvp vp name) → ∀ v, c (dvp, name) ≠ some (some v))
    (hrun : ufsRemove s dvp vp name = (.returned e, s')) : Coherent excused dirs ⟨s', c⟩ := by
  unfold ufsRemove at hrun
  split at hrun
  case isTrue =>
      cases hrun
      exact h
  case isFalse hdeletable =>
      split at hrun
      case h_1 => cases hrun
      case h_2 s₁ hremove =>
          cases hrun
          refine h.update (contents_ufsDirremove hremove) (fun w hw => ?_) fun hname => absurd hname hdot
          cases w with
          | none => exact .inl rfl
          | some v => exact absurd hw (hcache hdeletable v)

/-- What names the directory is excused from here on. -/
theorem coherent_ufsRmdir {dvp vp : Nat} {name : Name} {mountedOn : Bool} {e : Int}
    (h : Coherent excused dirs ⟨s, c⟩) (hfound : s.lookupIno dvp name = some vp) (hdot : name ≠ dotName)
    (hrun : ufsRmdir s dvp vp name mountedOn = (.returned e, s')) :
    Coherent (fun k v => excused k v ∨ e = 0 ∧ v = some vp) dirs ⟨s', c⟩ := by
  have hstay : Coherent (fun k v => excused k v ∨ e = 0 ∧ v = some vp) dirs ⟨s, c⟩ := h.mono fun _ _ he => .inl he
  unfold ufsRmdir at hrun
  split at hrun
  case isTrue =>
      cases hrun
      exact hstay
  case isFalse =>
  split at hrun
  case isTrue =>
      cases hrun
      exact hstay
  case isFalse =>
  split at hrun
  case isTrue =>
      cases hrun
      exact hstay
  case isFalse =>
  split at hrun
  case isTrue =>
      cases hrun
      exact hstay
  case isFalse =>
  split at hrun
  case h_1 => cases hrun
  case h_2 s₁ hremove =>
      cases hrun
      have hs₁ : contents ((s₁.adjust dvp 0 (-1)).adjust vp 0 (-1)) = Function.update (contents s) (dvp, name) none := by
        have hgone := contents_ufsDirremove hremove
        simpa using hgone
      refine hstay.update hs₁ (fun w hw => ?_) fun hname => absurd hname hdot
      rcases h.agrees _ w hw with hagree | he
      · exact .inr (.inr ⟨rfl, hagree.trans (lookup_of_lookupIno hfound)⟩)
      · exact .inr (.inl he)

/-! ### Steps -/

theorem name_ne_dot {dvp vp : Nat} {name : Name} (hfound : s.lookupIno dvp name = some vp) (hdot : HasDot s dvp)
    (hne : vp ≠ dvp) : name ≠ dotName := by
  rintro rfl
  have hself : s.lookup dvp dotName = some vp := lookup_of_lookupIno hfound
  exact hne (Option.some.inj (hself.symm.trans hdot))

/-- A call up to its end, or to the place where other threads may run. -/
theorem coherent_start {n n' : Names} {call : Call} {e : Int} {p : Pc}
    (h : Coherent excused (HasDot n.fs) n) (hpossible : call.Possible n.fs)
    (hmeets : Refused n.fs call ∨ NotStale n.cache call)
    (hcreated : ∀ d name vp, p = .created d name vp true → excused (d, name) none)
    (hremoved : ∀ vp k, p = .removed vp → excused k (some vp))
    (hrun : call.start savename n = some (e, n', p)) : Coherent excused (HasDot n.fs) n' := by
  cases call with
  | create dvp name cnFlags valloc direnter makeEntry =>
      obtain ⟨⟨-, hfree, -, -⟩, -⟩ := hpossible
      simp only [Call.start] at hrun
      split at hrun
      case h_1 x s₁ hmake =>
          cases hrun
          refine coherent_ufsMakeinode makeEntry h hfree (fun ip hip he hgoes hcached => ?_) hmake
          subst hip he
          rcases hmeets.resolve_left hgoes with rfl | hno
          · exact hcreated dvp name ip rfl
          · exact absurd hcached hno
      case h_2 => cases hrun
  | mkdir dvp name cnFlags valloc balloc direnter =>
      obtain ⟨⟨-, hfree, hvalloc⟩, hdot⟩ := hpossible
      simp only [Call.start] at hrun
      split at hrun
      case h_1 x s₁ hmake =>
          cases hrun
          exact coherent_ufsMkdir h hfree hdot hvalloc hmeets.resolve_left hmake
      case h_2 => cases hrun
  | link vp tdvp name cnFlags direnter =>
      obtain ⟨⟨-, -, hfree⟩, -⟩ := hpossible
      simp only [Call.start] at hrun
      split at hrun
      case h_1 x s₁ hmake =>
          cases hrun
          exact coherent_ufsLink h hfree hmeets.resolve_left hmake
      case h_2 => cases hrun
  | remove dvp vp name =>
      obtain ⟨⟨hfound, hfile⟩, hdir, hdot⟩ := hpossible
      have hne : vp ≠ dvp := by
        rintro rfl
        rw [hdir] at hfile
        cases hfile
      simp only [Call.start] at hrun
      split at hrun
      case h_1 x s₁ hremove =>
          cases hrun
          exact coherent_ufsRemove h (name_ne_dot hfound hdot hne) hmeets.resolve_left hremove
      case h_2 => cases hrun
  | rmdir dvp vp name mountedOn =>
      obtain ⟨⟨hfound, -, hne⟩, hdot⟩ := hpossible
      simp only [Call.start] at hrun
      split at hrun
      case h_1 x s₁ hremove =>
          cases hrun
          refine (coherent_ufsRmdir h hfound (name_ne_dot hfound hdot hne) hremove).mono fun k v he => ?_
          rcases he with he | ⟨rfl, rfl⟩
          · exact he
          · exact hremoved vp k rfl
      case h_2 => cases hrun
  | rename a makeEntry =>
      obtain ⟨⟨hfdir, -⟩, hfdot, htdot⟩ := hpossible
      simp only [Call.start] at hrun
      split at hrun
      case h_1 x s₁ hexit =>
          cases hrun
          exact coherent_rename h hfdir hfdot htdot hexit
      case h_2 => cases hrun

/-- The end of a call sets right what was excused for it. -/
theorem coherent_finish (pc : τ → Pc) (t : τ) (h : Coherent (Excused pc) dirs ⟨s, c⟩)
    (hdir : ∀ d name vp makeEntry, pc t = .created d name vp makeEntry → dirs d)
    (hmeets : ∀ d name vp, pc t = .created d name vp true → contents s (d, name) = some vp) :
    Coherent (Excused (Function.update pc t .idle)) dirs ⟨s, (pc t).finish c⟩ := by
  have hother : ∀ {k v}, Excused pc k v →
      (∃ vp, pc t = .created k.1 k.2 vp true ∧ v = none) ∨ (∃ vp, pc t = .removed vp ∧ v = some vp)
        ∨ Excused (Function.update pc t .idle) k v := by
    rintro k v ⟨u, hu⟩
    by_cases hut : u = t
    · subst hut
      rcases hu with hu | hu
      · exact .inl hu
      · exact .inr (.inl hu)
    · exact .inr (.inr ⟨u, by rwa [Function.update_of_ne hut]⟩)
  cases hpc : pc t with
  | idle =>
      refine h.mono fun k v he => ?_
      rcases hother he with ⟨vp, hno, -⟩ | ⟨vp, hno, -⟩ | he
      · rw [hpc] at hno
        cases hno
      · rw [hpc] at hno
        cases hno
      · exact he
  | created d name vp makeEntry =>
      cases makeEntry with
      | true =>
          refine h.cacheEnter (hmeets d name vp hpc).symm (hdir d name vp true hpc) fun k v hk he => ?_
          rcases hother he with ⟨vp', hown, -⟩ | ⟨vp', hno, -⟩ | he
          · rw [hpc] at hown
            cases hown
            exact absurd rfl hk
          · rw [hpc] at hno
            cases hno
          · exact he
      | false =>
          refine h.mono fun k v he => ?_
          rcases hother he with ⟨vp', hno, -⟩ | ⟨vp', hno, -⟩ | he
          · rw [hpc] at hno
            cases hno
          · rw [hpc] at hno
            cases hno
          · exact he
  | removed vp =>
      refine h.forget fun k v he => ?_
      rcases hother he with ⟨vp', hno, -⟩ | ⟨vp', hown, rfl⟩ | he
      · rw [hpc] at hno
        cases hno
      · rw [hpc] at hown
        cases hown
        exact .inl (decide_eq_true (.inr rfl))
      · exact .inr he

/-- `ufs_create` that is not refused has made its file when other threads may run. -/
theorem create_start {n n' : Names} {e : Int} {p : Pc} {dvp : Nat} {name : Name} {cnFlags : UInt32}
    {valloc : Except Int Nat} {direnter : Int} {makeEntry : Bool}
    (hrun : Call.start savename n (.create dvp name cnFlags valloc direnter makeEntry) = some (e, n', p)) :
    (Refused n.fs (.create dvp name cnFlags valloc direnter makeEntry) ∧ p = .idle)
      ∨ ∃ ip, p = .created dvp name ip makeEntry ∧ contents n'.fs (dvp, name) = some ip := by
  simp only [Call.start, ufsMakeinode] at hrun
  cases valloc with
  | error x => grind [createdPc, Refused]
  | ok ip =>
      by_cases hlive : (n.fs.inode dvp).effnlink < 2
      · grind [createdPc, Refused, EINVAL]
      by_cases hsaved : nameSaved savename cnFlags = false
      · simp [hlive, hsaved] at hrun
      by_cases hdirenter : direnter = 0
      · simp only [if_neg hlive, if_neg hsaved, hdirenter, createdPc, ne_eq, not_true_eq_false, if_false,
          Option.some.injEq, Prod.mk.injEq] at hrun
        obtain ⟨rfl, rfl, rfl⟩ := hrun
        exact .inr ⟨ip, rfl, by simp⟩
      · grind [createdPc, Refused]

/-- Only `ufs_create` has a name to cache, of the file it has just made. -/
theorem created_start {n n' : Names} {call : Call} {e : Int} {d vp : Nat} {name : Name} {makeEntry : Bool}
    (hrun : call.start savename n = some (e, n', .created d name vp makeEntry)) :
    (∃ cnFlags valloc direnter, call = .create d name cnFlags valloc direnter makeEntry)
      ∧ contents n'.fs (d, name) = some vp := by
  cases call with
  | create dvp name' cnFlags valloc direnter makeEntry' =>
      obtain ⟨-, hidle⟩ | ⟨ip, hpc, hmade⟩ := create_start hrun
      · cases hidle
      · cases hpc
        exact ⟨⟨cnFlags, valloc, direnter, rfl⟩, hmade⟩
  | rmdir dvp vp' name' mountedOn =>
      simp only [Call.start] at hrun
      split at hrun
      case h_1 => grind
      case h_2 => cases hrun
  | mkdir | link | remove | rename =>
      simp only [Call.start] at hrun
      split at hrun
      case h_1 => cases hrun
      case h_2 => cases hrun

theorem hasDot_of_created {n n' : Names} {call : Call} {e : Int} {d vp : Nat} {name : Name} {makeEntry : Bool}
    (hpossible : call.Possible n.fs) (hrun : call.start savename n = some (e, n', .created d name vp makeEntry)) :
    HasDot n.fs d := by
  obtain ⟨⟨cnFlags, valloc, direnter, rfl⟩, -⟩ := created_start hrun
  exact hpossible.2

/-- A step that meets the condition keeps the invariant. -/
theorem invariant_step {s s' : Sys τ} {t : τ} {ev : Event} (h : Invariant s)
    (hstep : Ufs.NameCache.Step savename s t ev s') (hmeets : Meets s t ev) : Invariant s' := by
  cases hstep with
  | lookup r idle dir =>
      have hcoherent := coherent_ufsLookupIno h.coherent dir
      refine ⟨?_, ?_⟩
      · exact hcoherent.rebase
      · intro u d name vp makeEntry hpc
        exact hcoherent.dots d (h.creating u d name vp makeEntry hpc)
  | start call idle possible e n p run =>
      have hbegin : Coherent (Excused (Function.update s.pc t p)) (HasDot s.names.fs) s.names :=
        h.coherent.mono fun k v he => excused_start idle p he
      have hcoherent : Coherent (Excused (Function.update s.pc t p)) (HasDot s.names.fs) n := by
        refine coherent_start hbegin possible hmeets (fun d name vp hp => ?_) (fun vp k hp => ?_) run
        · exact ⟨t, .inl ⟨vp, by rw [Function.update_self, hp], rfl⟩⟩
        · exact ⟨t, .inr ⟨vp, by rw [Function.update_self, hp], rfl⟩⟩
      refine ⟨hcoherent.rebase, fun u d name vp makeEntry hpc => hcoherent.dots d ?_⟩
      rcases update_cases (fun p => p = Pc.created d name vp makeEntry) hpc with ⟨-, rfl⟩ | ⟨-, hold⟩
      · exact hasDot_of_created possible run
      · exact h.creating u d name vp makeEntry hold
  | finish busy =>
      have hcoherent := coherent_finish s.pc t h.coherent (h.creating t) hmeets
      refine ⟨hcoherent, fun u d name vp makeEntry hpc => ?_⟩
      rcases update_cases (fun p => p = Pc.created d name vp makeEntry) hpc with ⟨-, hno⟩ | ⟨-, hold⟩
      · cases hno
      · exact h.creating u d name vp makeEntry hold

/-! ### One call alone -/

/-- A call that is not refused makes its name, or removes it. -/
theorem contents_start {n n' : Names} {call : Call} {e : Int} {p : Pc} (hgoes : ¬ Refused n.fs call)
    (hrun : call.start savename n = some (e, n', p)) :
    match call with
    | .create dvp name _ _ _ makeEntry =>
        ∃ ip, p = .created dvp name ip makeEntry ∧ contents n'.fs (dvp, name) = some ip
    | .mkdir dvp name .. => contents n'.fs (dvp, name) ≠ none
    | .link _ tdvp name _ _ => contents n'.fs (tdvp, name) ≠ none
    | .remove dvp _ name => contents n'.fs (dvp, name) = none
    | .rmdir .. => True
    | .rename .. => True := by
  cases call with
  | create => exact (create_start hrun).resolve_left fun h => hgoes h.1
  | mkdir dvp name cnFlags valloc balloc direnter =>
      simp only [Refused, not_or, not_exists, not_not] at hgoes
      obtain ⟨hmax, hlive, hvalloc, rfl, rfl⟩ := hgoes
      cases valloc with
      | error x => exact absurd rfl (hvalloc x)
      | ok ip =>
          by_cases hsaved : nameSaved savename cnFlags = false
          · simp [Call.start, ufsMkdir, hmax, hlive, hsaved] at hrun
          simp only [Call.start, ufsMkdir, if_neg hmax, if_neg hlive, if_neg hsaved, ne_eq, not_true_eq_false, if_false,
            Option.some.injEq, Prod.mk.injEq] at hrun
          obtain ⟨rfl, rfl, rfl⟩ := hrun
          simp
  | link vp tdvp name cnFlags direnter =>
      simp only [Refused, not_or, not_not] at hgoes
      obtain ⟨hlive, hmax, hgone, hflags, rfl⟩ := hgoes
      by_cases hsaved : nameSaved savename cnFlags = false
      · simp [Call.start, ufsLink, hlive, hmax, hgone, hflags, hsaved] at hrun
      simp only [Call.start, ufsLink, if_neg hlive, if_neg hmax, if_neg hgone, if_neg hsaved, ne_eq, not_true_eq_false,
        if_false, not_or.mpr hflags, Option.some.injEq, Prod.mk.injEq] at hrun
      obtain ⟨rfl, rfl, rfl⟩ := hrun
      simp
  | remove dvp vp name =>
      simp only [Refused] at hgoes
      simp only [Call.start, ufsRemove, if_neg hgoes] at hrun
      cases hremove : ufsDirremove n.fs dvp name vp with
      | none =>
          rw [hremove] at hrun
          cases hrun
      | some s₁ =>
          rw [hremove] at hrun
          cases hrun
          have hgone := contents_ufsDirremove hremove
          simp [hgone]
  | rmdir => trivial
  | rename => trivial

/-- What the calls that need the condition do to the cache before other threads run. -/
theorem start_cache {n n' : Names} {call : Call} {e : Int} {p : Pc} (hrun : call.start savename n = some (e, n', p))
    (hstale : ¬ NotStale n.cache call) :
    n'.cache = n.cache ∧ match call with
      | .create .. => True
      | _ => p = .idle := by
  cases call with
  | create | mkdir | link | remove =>
      simp only [Call.start] at hrun
      split at hrun
      case h_1 =>
          cases hrun
          exact ⟨rfl, by trivial⟩
      case h_2 => cases hrun
  | rmdir => exact absurd trivial hstale
  | rename => exact absurd trivial hstale

/-- From directories and a cache that agree, a call that runs alone leaves them so exactly
when it meets the condition. -/
theorem call_agrees_iff {n n' : Names} {call : Call} {e : Int} {p : Pc}
    (h : Coherent (fun _ _ => False) (HasDot n.fs) n) (hpossible : call.Possible n.fs)
    (hrun : call.start savename n = some (e, n', p)) :
    (p.finish n'.cache).Agrees (contents n'.fs) ↔ Refused n.fs call ∨ NotStale n.cache call := by
  constructor
  · intro hagrees
    by_contra hno
    obtain ⟨hgoes, hstale⟩ := not_or.mp hno
    have hcontents := contents_start hgoes hrun
    obtain ⟨hcache, hidle⟩ := start_cache hrun hstale
    rw [hcache] at hagrees
    cases call with
    | create dvp name cnFlags valloc direnter makeEntry =>
        obtain ⟨hmake, hcached⟩ := not_or.mp hstale
        obtain ⟨ip, rfl, hmade⟩ := hcontents
        obtain rfl : makeEntry = false := Bool.eq_false_iff.mpr hmake
        have hagree := hagrees (dvp, name) none (not_not.mp hcached)
        rw [hmade] at hagree
        cases hagree
    | mkdir dvp name cnFlags valloc balloc direnter =>
        obtain rfl : p = .idle := hidle
        exact hcontents (hagrees (dvp, name) none (not_not.mp hstale)).symm
    | link vp tdvp name cnFlags direnter =>
        obtain rfl : p = .idle := hidle
        exact hcontents (hagrees (tdvp, name) none (not_not.mp hstale)).symm
    | remove dvp vp name =>
        obtain rfl : p = .idle := hidle
        obtain ⟨v, hv⟩ := not_forall.mp hstale
        have hagree := hagrees (dvp, name) (some v) (not_not.mp hv)
        rw [hcontents] at hagree
        cases hagree
    | rmdir => exact hstale trivial
    | rename => exact hstale trivial
  · intro hmeets
    have hbegin : Coherent (Excused fun _ : Unit => p) (HasDot n.fs) n := h.mono fun _ _ hno => hno.elim
    have hstarted := coherent_start hbegin hpossible hmeets
      (fun d name vp hp => ⟨(), .inl ⟨vp, hp, rfl⟩⟩) (fun vp k hp => ⟨(), .inr ⟨vp, hp, rfl⟩⟩) hrun
    have hfinished := coherent_finish (fun _ : Unit => p) () hstarted ?_ ?_
    · exact hfinished.agrees.agrees (not_excused_of_idle fun _ => Function.update_self ..)
    · rintro d name vp makeEntry rfl
      exact hasDot_of_created hpossible hrun
    · rintro d name vp rfl
      exact (created_start hrun).2

/-! ### Runs -/

/-- No call has run yet. -/
def Boot (s : Sys τ) : Prop := (∀ t, s.pc t = .idle) ∧ s.names.cache = Cache.empty

omit [DecidableEq τ] in
theorem Boot.invariant {s : Sys τ} (h : Boot s) : Invariant s where
  coherent := by
    refine ⟨?_, fun _ hd => hd, fun k v hv => ?_⟩
    · rw [h.2]
      exact Cache.agrees_empty.upTo
    · rw [h.2] at hv
      cases hv
  creating t d name vp makeEntry hpc := by
    rw [h.1 t] at hpc
    cases hpc

/-- A step of some thread that meets the condition. -/
def GoodStep (savename : UInt32) (s s' : Sys τ) : Prop := ∃ t ev, Ufs.NameCache.Step savename s t ev s' ∧ Meets s t ev

/-- Over a run whose steps meet the condition, the name cache agrees with the directories
whenever no call is running. -/
theorem nameCache_agrees (savename : UInt32) {s₀ s : Sys τ} (h₀ : Boot s₀)
    (hrun : ReflTransGen (GoodStep savename) s₀ s)
    (hidle : ∀ t, s.pc t = .idle) : s.names.cache.Agrees (contents s.names.fs) := by
  have hinv : Invariant s := by
    refine invariant_of_run Invariant (fun {a b} h hstep => ?_) h₀.invariant hrun
    obtain ⟨t, ev, hstep, hmeets⟩ := hstep
    exact invariant_step h hstep hmeets
  exact hinv.coherent.agrees.agrees (not_excused_of_idle hidle)

/-! #### A file in the root -/

def fileName : Name := [0x66]

/-- The last component, with `MAKEENTRY`. -/
def component (nameiop : Nameiop) : LookupArgs :=
  ⟨UFS_ROOTINO, fileName, nameiop, true, true, false, 0, 0, 0, false⟩

/-- Two threads, and a root with the file in it, which is inode 5. -/
def booted : Sys Bool := ⟨⟨built₃, Cache.empty⟩, fun _ => .idle⟩

/-- One thread has looked the file up, to remove it. -/
def sought : Sys Bool := { booted with names := (ufsLookupIno booted.names (component .delete)).2 }

/-- Then the other, to read it. -/
def looked : Sys Bool := { booted with names := (ufsLookupIno sought.names (component .lookup)).2 }

theorem boot_booted : Boot booted := ⟨fun _ => rfl, rfl⟩

theorem step_sought : Ufs.NameCache.Step SAVENAME booted false (.lookup (component .delete)) sought :=
  .lookup (component .delete) rfl (by decide)

theorem step_looked : Ufs.NameCache.Step SAVENAME sought true (.lookup (component .lookup)) looked :=
  .lookup (component .lookup) rfl (by decide)

/-- `ufs_remove` of the file. -/
def removeFile : Call := .remove UFS_ROOTINO 5 fileName

/-- The root without it. -/
def gone : State := (ufsRemove built₃ UFS_ROOTINO 5 fileName).2

theorem contents_gone : contents gone (UFS_ROOTINO, fileName) = none := by decide

theorem step_removed {s : Sys Bool} (hfs : s.names.fs = built₃) (hidle : ∀ t, s.pc t = .idle) :
    Ufs.NameCache.Step SAVENAME s false (.start removeFile)
      ⟨⟨gone, s.names.cache⟩, Function.update s.pc false .idle⟩ := by
  refine .start removeFile (hidle false) ?_ 0 ⟨gone, s.names.cache⟩ .idle ?_
  · rw [hfs]
    exact ⟨⟨rfl, rfl⟩, rfl, rfl⟩
  · simp only [removeFile, Call.start, hfs]
    rfl

/-- The file is removed right after it has been looked up, and another thread caches that
it is not there. -/
theorem nameCache_agrees_removed :
    ∃ s : Sys Bool, Boot booted ∧ ReflTransGen (GoodStep SAVENAME) booted s ∧ (∀ t, s.pc t = .idle)
      ∧ s.names.cache (UFS_ROOTINO, fileName) = some none
      ∧ s.names.cache.Agrees (contents s.names.fs) := by
  let removed : Sys Bool := ⟨⟨gone, sought.names.cache⟩, Function.update sought.pc false .idle⟩
  let missed : Sys Bool := { removed with names := (ufsLookupIno removed.names (component .lookup)).2 }
  have hremove : Ufs.NameCache.Step SAVENAME sought false (.start removeFile) removed :=
    step_removed rfl fun _ => rfl
  have hmiss : Ufs.NameCache.Step SAVENAME removed true (.lookup (component .lookup)) missed :=
    .lookup (component .lookup) rfl (by decide)
  have hrun : ReflTransGen (GoodStep SAVENAME) booted missed :=
    ((ReflTransGen.refl.tail ⟨false, _, step_sought, trivial⟩).tail
      ⟨false, _, hremove, .inr fun v hv => by cases hv⟩).tail ⟨true, _, hmiss, trivial⟩
  have hidle : ∀ t : Bool, missed.pc t = .idle := by decide
  exact ⟨missed, boot_booted, hrun, hidle, by decide, nameCache_agrees SAVENAME boot_booted hrun hidle⟩

/-- A look-up between that of `ufs_remove` and the call puts the file back into the cache,
where it stays. -/
theorem nameCache_stale :
    ¬ ∀ s₀ s : Sys Bool, Boot s₀ →
      ReflTransGen (fun a b => ∃ t ev, Ufs.NameCache.Step SAVENAME a t ev b) s₀ s →
      (∀ t, s.pc t = .idle) → s.names.cache.Agrees (contents s.names.fs) := by
  intro hall
  have hcached : looked.names.cache (UFS_ROOTINO, fileName) = some (some 5) := by decide
  have hagree := hall booted _ boot_booted
    (((ReflTransGen.refl.tail ⟨false, _, step_sought⟩).tail ⟨true, _, step_looked⟩).tail
      ⟨false, _, step_removed rfl fun _ => rfl⟩) (by decide) (UFS_ROOTINO, fileName) (some 5) hcached
  rw [contents_gone] at hagree
  cases hagree

end UfsX.Proofs.NameCache
