import UfsX.Lib.Run
import UfsX.Proofs.Links
import UfsX.Ufs.NameCache

/-!
# `UfsX.Proofs.NameCache`: the name cache and the directories

`Coherent` is the invariant between the calls of the threads: an entry of the name cache
has what its directory has under the name, up to entries that a call under way is about to
set right. A look-up keeps it. Every update changes the table of the directories at one
key after the other, and what is cached under such a key decides whether the cache stays
right.
-/

set_option autoImplicit false

namespace UfsX.Proofs.NameCache

open Relation UfsX.Lib UfsX.Ufs UfsX.Ufs.Links UfsX.Ufs.NameCache UfsX.Proofs.Links

variable {savename : UInt32} {s s' : State} {d i : Nat} {name : Name} {k : Key} {c : VfsCache}

/-! ### The table of all directories -/

@[simp] theorem contents_setInode (ip : Links.Inode) : contents (s.setInode i ip) = contents s := rfl

@[simp] theorem contents_adjust (a b : Int) : contents (s.adjust i a b) = contents s := rfl

@[simp] theorem contents_enter :
    contents (s.enter d name i) = Function.update (contents s) (d, name) (some i) := by
  funext ⟨d', name'⟩
  unfold contents State.lookup
  rw [entries_enter, List.find?_cons]
  by_cases hkey : d = d' ∧ name = name'
  · obtain ⟨rfl, rfl⟩ := hkey
    simp
  · have hne : (d', name') ≠ (d, name) := fun h => hkey ⟨(Prod.mk.inj h).1.symm, (Prod.mk.inj h).2.symm⟩
    rw [Function.update_of_ne hne]
    simp [hkey]

@[simp] theorem contents_remove : contents (s.remove d name) = Function.update (contents s) (d, name) none := by
  funext ⟨d', name'⟩
  unfold contents State.lookup State.remove
  rw [List.find?_filter]
  by_cases hkey : (d', name') = (d, name)
  · obtain ⟨rfl, rfl⟩ := Prod.mk.inj hkey
    rw [Function.update_self, Option.map_eq_none_iff, List.find?_eq_none]
    intro e _
    grind
  · rw [Function.update_of_ne hkey]
    have hpred : (fun e : Links.Entry => decide (decide (¬ (e.dir = d ∧ e.name = name)) = true
          ∧ decide (e.dir = d' ∧ e.name = name') = true))
        = fun e => decide (e.dir = d' ∧ e.name = name') := by
      funext e
      grind
    rw [hpred]

@[simp] theorem contents_rewrite :
    contents (s.rewrite d name i) = Function.update (contents s) (d, name) (some i) := by
  unfold State.rewrite
  rw [contents_enter, contents_remove, Function.update_idem]

theorem lookup_of_lookupIno (h : s.lookupIno d name = some i) : contents s (d, name) = some i := by
  unfold State.lookupIno at h
  split at h
  case isTrue => cases h
  case isFalse => exact h

theorem effnlink_of_lookupIno (h : s.lookupIno d name = some i) : (s.inode d).effnlink ≠ 0 := by
  unfold State.lookupIno at h
  split at h
  case isTrue => cases h
  case isFalse hne => exact hne

/-! ### Coherence -/

/-- The cache agrees with the directories, up to `excused`; the directories of `dirs` have
their `.`, and only names in these are cached. -/
structure Coherent (excused : Key → Option Nat → Prop) (dirs : Nat → Prop) (n : Names) : Prop where
  agrees : n.cache.AgreesUpTo excused (contents n.fs)
  dots : ∀ d, dirs d → HasDot n.fs d
  known : ∀ k v, n.cache k = some v → dirs k.1

variable {excused excused' : Key → Option Nat → Prop} {dirs : Nat → Prop} {n : Names} {r : LookupArgs}

namespace Coherent

theorem congr (h : Coherent excused dirs ⟨s, c⟩) (hs : contents s' = contents s) : Coherent excused dirs ⟨s', c⟩ where
  agrees := hs ▸ h.agrees
  dots d hd := (congrFun hs (d, dotName)).trans (h.dots d hd)
  known := h.known

theorem mono (h : Coherent excused dirs n) (hsub : ∀ k v, excused k v → excused' k v) : Coherent excused' dirs n :=
  ⟨h.agrees.mono hsub, h.dots, h.known⟩

/-- Entries go, and with them what was excused. -/
theorem forget {p : Key → Option Nat → Bool} (h : Coherent excused dirs ⟨s, c⟩)
    (hsub : ∀ k v, excused k v → p k v = true ∨ excused' k v) : Coherent excused' dirs ⟨s, c.forget p⟩ where
  agrees := h.agrees.forget hsub
  dots := h.dots
  known k v hv := h.known k v (Cache.forget_eq_some.mp hv).1

theorem forget' {p : Key → Option Nat → Bool} (h : Coherent excused dirs ⟨s, c⟩) :
    Coherent excused dirs ⟨s, c.forget p⟩ := h.forget fun _ _ he => .inr he

/-- What a directory has under a name is cached. -/
theorem cacheEnter {v : Option Nat} (h : Coherent excused dirs ⟨s, c⟩) (hv : v = contents s (d, name)) (hd : dirs d)
    (hsub : ∀ k w, k ≠ (d, name) → excused k w → excused' k w) :
    Coherent excused' dirs ⟨s, NameCache.cacheEnter c d v name⟩ where
  agrees := h.agrees.enter hv hsub
  dots := h.dots
  known k w hw := by
    change Function.update c (d, name) (some v) k = some w at hw
    by_cases hk : k = (d, name)
    · rw [hk]
      exact hd
    · rw [Function.update_of_ne hk] at hw
      exact h.known k w hw

/-- A directory changes at one name. -/
theorem update {v : Option Nat} (h : Coherent excused dirs ⟨s, c⟩)
    (hs : contents s' = Function.update (contents s) (d, name) v)
    (hcache : ∀ w, c (d, name) = some w → w = v ∨ excused (d, name) w)
    (hdot : name = dotName → dirs d → v = some d) : Coherent excused dirs ⟨s', c⟩ where
  agrees := hs ▸ h.agrees.update hcache
  dots d' hd' := by
    change contents s' (d', dotName) = some d'
    rw [hs]
    by_cases hk : (d', dotName) = (d, name)
    · obtain ⟨rfl, rfl⟩ := Prod.mk.inj hk
      rw [Function.update_self]
      exact hdot rfl hd'
    · rw [Function.update_of_ne hk]
      exact h.dots d' hd'
  known := h.known

/-- A directory changes at a name that is not cached. -/
theorem update_none {v : Option Nat} (h : Coherent excused dirs ⟨s, c⟩)
    (hs : contents s' = Function.update (contents s) (d, name) v) (hcache : c (d, name) = none)
    (hdot : name = dotName → dirs d → v = some d) : Coherent excused dirs ⟨s', c⟩ :=
  h.update hs (fun w hw => by rw [hcache] at hw; cases hw) hdot

end Coherent

/-! ### Looking up -/

theorem coherent_cacheLookup (h : Coherent excused dirs n) :
    Coherent excused dirs { n with cache := (cacheLookup n.cache r).2 } := by
  unfold cacheLookup
  split
  case isTrue => exact h.forget'
  case isFalse => exact h

theorem coherent_lookupNotfound (h : Coherent excused dirs n) (hdir : dirs r.vdp)
    (hnone : contents n.fs r.key = none) : Coherent excused dirs (lookupNotfound n r).2 := by
  unfold lookupNotfound
  split
  case isTrue =>
      split
      case isTrue => exact h
      case isFalse => exact h
  case isFalse =>
      split
      case isTrue => exact h.cacheEnter hnone.symm hdir fun _ _ _ he => he
      case isFalse => exact h

theorem lookupVget_ok {ino vp : Nat} (h : lookupVget r ino = .ok vp) : vp = ino := by
  unfold lookupVget at h
  grind

/-- From `found` on, the name is cached or not. -/
theorem lookupFound_names (n : Names) (r : LookupArgs) (ino : Nat) :
    (lookupFound n r ino).2 = n
      ∨ (lookupFound n r ino).2 = { n with cache := cacheEnter n.cache r.vdp (some ino) r.name } := by
  unfold lookupFound
  cases hvget : lookupVget r ino with
  | error e => grind
  | ok vp =>
      obtain rfl := lookupVget_ok hvget
      grind

theorem coherent_lookupFound {ino : Nat} (h : Coherent excused dirs n) (hdir : dirs r.vdp)
    (hino : contents n.fs r.key = some ino) : Coherent excused dirs (lookupFound n r ino).2 := by
  rcases lookupFound_names n r ino with hstay | henter
  · rw [hstay]
    exact h
  · rw [henter]
    exact h.cacheEnter hino.symm hdir fun _ _ _ he => he

theorem coherent_ufsLookupIno (h : Coherent excused dirs n) (hdir : dirs r.vdp) :
    Coherent excused dirs (ufsLookupIno n r).2 := by
  have hlook := coherent_cacheLookup (r := r) h
  unfold ufsLookupIno
  split
  case isTrue => exact h
  case isFalse =>
      cases hc : cacheLookup n.cache r with
      | mk hit c =>
          rw [hc] at hlook
          cases hit with
          | some v =>
              cases v with
              | none => exact hlook
              | some vp => exact hlook
          | none =>
              cases hino : n.fs.lookup r.vdp r.name with
              | none => exact coherent_lookupNotfound hlook hdir hino
              | some ino => exact coherent_lookupFound hlook hdir hino

theorem ufsLookupIno_fs (n : Names) (r : LookupArgs) : (ufsLookupIno n r).2.fs = n.fs := by
  unfold ufsLookupIno
  split
  case isTrue => rfl
  case isFalse =>
      cases hc : cacheLookup n.cache r with
      | mk hit c =>
          cases hit with
          | some v =>
              cases v with
              | none => rfl
              | some vp => rfl
          | none =>
              cases hino : n.fs.lookup r.vdp r.name with
              | none =>
                  show (lookupNotfound { n with cache := c } r).2.fs = n.fs
                  unfold lookupNotfound
                  grind
              | some ino =>
                  show (lookupFound { n with cache := c } r ino).2.fs = n.fs
                  rcases lookupFound_names { n with cache := c } r ino with h | h <;> rw [h]

/-! ### `ufs_rename` -/

variable {a : RenameArgs} {makeEntry : Bool}

theorem coherent_relookupFrom (makeEntry : Bool) (h : Coherent excused dirs ⟨s, c⟩) (hdir : dirs a.fdvp) :
    Coherent excused dirs ⟨s, relookupFrom s a makeEntry c⟩ := by
  have hlook := coherent_ufsLookupIno
    (r := ⟨a.fdvp, a.fname, .delete, true, makeEntry, true, 0, 0, 0, false⟩) h hdir
  exact hlook.congr (by rw [ufsLookupIno_fs])

theorem coherent_relookupTo (h : Coherent excused dirs ⟨s, c⟩) (hdir : dirs a.tdvp) :
    Coherent excused dirs ⟨s, relookupTo s a c⟩ := by
  have hlook := coherent_ufsLookupIno
    (r := ⟨a.tdvp, a.tname, .rename, true, false, true, a.lookupAuthorize, 0, 0, false⟩) h hdir
  exact hlook.congr (by rw [ufsLookupIno_fs])

/-- Other keys that are not cached stay so. -/
theorem cacheLookup_eq_none (h : c k = none) : (cacheLookup c r).2 k = none := by
  unfold cacheLookup
  split
  case isTrue => simp [Cache.forget, h]
  case isFalse => exact h

theorem cacheLookup_key (hlast : r.isLastCn = true) (hop : r.nameiop ≠ .lookup) :
    cacheLookup c r = (none, (cacheLookup c r).2) ∧ (cacheLookup c r).2 r.key = none := by
  unfold cacheLookup
  rw [if_pos ⟨hlast, hop⟩]
  refine ⟨rfl, ?_⟩
  cases hc : c r.key <;> simp [Cache.forget, hc]

/-- The source that is found is no longer cached. -/
theorem relookupFrom_key {fip : Nat} (h : s.lookupIno a.fdvp a.fname = some fip) :
    relookupFrom s a makeEntry c (a.fdvp, a.fname) = none := by
  have hlook : s.lookup a.fdvp a.fname = some fip := lookup_of_lookupIno h
  obtain ⟨hmiss, hkey⟩ := cacheLookup_key (c := c)
    (r := ⟨a.fdvp, a.fname, .delete, true, makeEntry, true, 0, 0, 0, false⟩) rfl (by simp)
  unfold relookupFrom ufsLookupIno
  rw [if_neg (effnlink_of_lookupIno h), hmiss]
  simp only [hlook, lookupFound, and_self, if_true]
  exact hkey

/-- The target that may be used is no longer cached. -/
theorem relookupTo_eq {tip : Option Nat} (h : lookupTarget s a = .ok tip) : relookupTo s a c
    = (cacheLookup c ⟨a.tdvp, a.tname, .rename, true, false, true, a.lookupAuthorize, 0, 0, false⟩).2 := by
  obtain ⟨hmiss, -⟩ := cacheLookup_key (c := c)
    (r := ⟨a.tdvp, a.tname, .rename, true, false, true, a.lookupAuthorize, 0, 0, false⟩) rfl (by simp)
  unfold lookupTarget at h
  split at h
  case isTrue => cases h
  case isFalse hne =>
      split at h
      case isTrue => cases h
      case isFalse hauth =>
          unfold relookupTo ufsLookupIno
          rw [if_neg hne, hmiss]
          cases hlook : s.lookup a.tdvp a.tname with
          | none => simp [lookupNotfound, hauth]
          | some ino =>
              simp only [lookupFound]
              grind

theorem relookupTo_key {tip : Option Nat} (h : lookupTarget s a = .ok tip) :
    relookupTo s a c (a.tdvp, a.tname) = none := by
  rw [relookupTo_eq h]
  exact (cacheLookup_key rfl (by simp)).2

theorem contents_ufsDirremove {dvp ip : Nat} (h : ufsDirremove s dvp name ip = some s') :
    contents s' = Function.update (contents s) (dvp, name) none := by
  unfold ufsDirremove at h
  simp only [] at h
  split at h
  case isTrue => cases h
  case isFalse =>
      obtain rfl := Option.some.inj h
      simp

/-- The entry `..` is rewritten if it names the old parent. -/
theorem contents_ufsDirrewrite (s : State) (dp : Nat) (name : Name) (oip newinum : Nat) :
    contents (ufsDirrewrite s dp name oip newinum).2 = contents s
      ∨ (name = dotdotName → contents s (dp, dotdotName) = some oip)
        ∧ contents (ufsDirrewrite s dp name oip newinum).2
          = Function.update (contents s) (dp, name) (some newinum) := by
  unfold ufsDirrewrite
  simp only []
  split
  case isTrue => exact .inl (by simp)
  case isFalse h =>
      refine .inr ⟨fun hname => ?_, by simp⟩
      subst hname
      by_contra hno
      exact h ⟨rfl, hno⟩

/-- The source is not cached when its entry goes. -/
theorem unlinkCache_key {fip : Nat} (newparent makeEntry : Bool) (hkey : c (a.fdvp, a.fname) = none)
    (hfound : a.fdvp = a.tdvp → s.lookupIno a.fdvp a.fname = some fip) :
    unlinkCache a fip newparent makeEntry s c (a.fdvp, a.fname) = none := by
  have hrelook : (if a.fdvp = a.tdvp then relookupFrom s a makeEntry c else c) (a.fdvp, a.fname) = none := by
    split
    case isTrue hsame => exact relookupFrom_key (hfound hsame)
    case isFalse => exact hkey
  unfold unlinkCache
  cases newparent with
  | true => simp [vnodeUpdateIdentity, cachePurge, Cache.forget, hrelook]
  | false => simpa [vnodeUpdateIdentity] using hrelook

/-- The entry `..` of a directory that moves: what named the old parent goes. -/
theorem coherent_dotdot {fip tip : Nat} (h : Coherent excused dirs ⟨s, c⟩) :
    Coherent excused dirs ⟨(ufsDirrewrite s fip dotdotName a.fdvp tip).2, cachePurge c a.fdvp⟩ := by
  rcases contents_ufsDirrewrite s fip dotdotName a.fdvp tip with hsame | ⟨hold, hnew⟩
  · exact (h.congr hsame).forget'
  · have hold := hold rfl
    -- until the purge, the entries that name the old parent are excused
    have hmid : Coherent (fun k v => excused k v ∨ v = some a.fdvp) dirs
        ⟨(ufsDirrewrite s fip dotdotName a.fdvp tip).2, c⟩ := by
      refine (h.mono fun _ _ he => .inl he).update hnew (fun w hw => ?_) fun hdot => absurd hdot (by decide)
      rcases h.agrees _ w hw with hagree | he
      · exact .inr (.inr (hagree.trans hold))
      · exact .inr (.inl he)
    refine hmid.forget fun k v he => ?_
    rcases he with he | hv
    · exact .inr he
    · exact .inl (decide_eq_true (.inr hv))

/-- Step 3: the entry `..` of a directory that moves and the entry of the source. -/
theorem coherent_renameUnlink {fip : Nat} {tip : Option Nat} {newparent : Bool} {e : Int}
    (h : Coherent excused dirs ⟨s, c⟩) (hdir : dirs a.fdvp) (hdot : a.fname ≠ dotName)
    (hnew : newparent = true → a.fdvp ≠ a.tdvp) (hkey : c (a.fdvp, a.fname) = none)
    (hexit : renameUnlink a fip tip newparent s = .unlockout e s') :
    Coherent excused dirs ⟨s', unlinkCache a fip newparent makeEntry s c⟩ := by
  unfold renameUnlink at hexit
  split at hexit
  case isTrue => cases hexit
  case isFalse hfound =>
      have hgone := unlinkCache_key newparent makeEntry hkey
        fun hsame => by_contra fun hno => hfound ⟨hsame, hno⟩
      cases newparent with
      | true =>
          have hne := hnew rfl
          simp only [if_true] at hexit
          split at hexit
          case h_1 => cases hexit
          case h_2 s₂ hremove =>
              cases hexit
              refine Coherent.update_none (s := (ufsDirrewrite
                (if tip = none then s.adjust a.tdvp 1 1 else s) fip dotdotName a.fdvp a.tdvp).2) ?_
                (contents_ufsDirremove hremove) hgone fun hd => absurd hd hdot
              have hmoved : Coherent excused dirs ⟨if tip = none then s.adjust a.tdvp 1 1 else s, c⟩ := by
                refine h.congr ?_
                split
                case isTrue => rfl
                case isFalse => rfl
              have hcache : unlinkCache a fip true makeEntry s c = cachePurge c a.fdvp := by
                simp [unlinkCache, hne, vnodeUpdateIdentity]
              rw [hcache]
              exact coherent_dotdot hmoved
      | false =>
          simp only [Bool.false_eq_true, if_false] at hexit
          split at hexit
          case h_1 => cases hexit
          case h_2 s₂ hremove =>
              cases hexit
              refine Coherent.update_none (s := s) ?_ (contents_ufsDirremove hremove) hgone
                fun hd => absurd hd hdot
              have hrelook : Coherent excused dirs
                  ⟨s, if a.fdvp = a.tdvp then relookupFrom s a makeEntry c else c⟩ := by
                split
                case isTrue => exact coherent_relookupFrom _ h hdir
                case isFalse => exact h
              simpa [unlinkCache, vnodeUpdateIdentity] using hrelook

theorem contents_renameQuash {tip : Nat} {doingdirectory newparent : Bool} {deff dnlink : Int} :
    contents (renameQuash a tip doingdirectory newparent deff dnlink s) = contents s := by
  unfold renameQuash
  cases doingdirectory <;> cases newparent <;> rfl

/-- A test of `ufs_rename` goes the same way for the directories and for the cache. -/
theorem coherent_ite {p : Prop} [Decidable p] {x y : RenameExit} {cx cy : VfsCache} {e : Int}
    (hexit : (if p then x else y) = .unlockout e s')
    (hthen : p → x = .unlockout e s' → Coherent excused dirs ⟨s', cx⟩)
    (helse : ¬ p → y = .unlockout e s' → Coherent excused dirs ⟨s', cy⟩) :
    Coherent excused dirs ⟨s', if p then cx else cy⟩ := by
  by_cases hp : p
  · rw [if_pos hp] at hexit ⊢
    exact hthen hp hexit
  · rw [if_neg hp] at hexit ⊢
    exact helse hp hexit

theorem coherent_renameBad {fip : Nat} {x e : Int} {s₁ : State} (h : Coherent excused dirs ⟨s, c⟩)
    (hs : contents s₁ = contents s) (hexit : renameBad fip x s₁ = .unlockout e s') :
    Coherent excused dirs ⟨s', c⟩ := by
  cases hexit
  exact h.congr ((contents_adjust ..).trans hs)

section Update

variable {fip : Nat} {newparent : Bool} {e : Int}
variable (hdir : dirs a.fdvp) (hfrom : a.fname ≠ dotName) (hto : a.tname ≠ dotName)
variable (hnew : newparent = true → a.fdvp ≠ a.tdvp)
include hdir hfrom hto hnew

/-- Step 2, where the target does not exist. -/
theorem coherent_renameNew (h : Coherent excused dirs ⟨s, c⟩) (hkey : c (a.fdvp, a.fname) = none)
    (htkey : c (a.tdvp, a.tname) = none) (hexit : renameNew savename a fip newparent s = .unlockout e s') :
    Coherent excused dirs ⟨s', newCache a fip newparent makeEntry s c⟩ := by
  refine coherent_ite hexit (fun _ => coherent_renameBad h rfl) fun _ hexit => ?_
  split at hexit
  case isTrue => cases hexit
  case isFalse =>
  refine coherent_ite hexit (fun _ => coherent_renameBad h rfl) fun _ hexit => ?_
  have hentered : Coherent excused dirs ⟨s.enter a.tdvp a.tname fip, c⟩ :=
    h.update_none contents_enter htkey fun hd => absurd hd hto
  exact coherent_renameUnlink hentered hdir hfrom hnew hkey hexit

/-- Step 2, where the target exists. -/
theorem coherent_renameOver {tip : Nat} {doingdirectory : Bool} (h : Coherent excused dirs ⟨s, c⟩)
    (hkey : c (a.fdvp, a.fname) = none) (htkey : c (a.tdvp, a.tname) = none)
    (hexit : renameOver a fip tip doingdirectory newparent s = .unlockout e s') :
    Coherent excused dirs ⟨s', overCache a fip tip doingdirectory newparent makeEntry s c⟩ := by
  refine coherent_ite hexit (fun _ hno => by cases hno) fun _ hexit => ?_
  refine coherent_ite hexit (fun _ => coherent_renameBad h rfl) fun _ hexit => ?_
  refine coherent_ite hexit (fun _ => coherent_renameBad h rfl) fun _ hexit => ?_
  refine coherent_ite hexit (fun _ => coherent_renameBad h rfl) fun _ hexit => ?_
  refine coherent_ite hexit (fun _ => coherent_renameBad h rfl) fun _ hexit => ?_
  have hpurged : Coherent excused dirs ⟨s, if (s.inode tip).isDir then cachePurge c a.tdvp else c⟩ := by
    split
    case isTrue => exact h.forget'
    case isFalse => exact h
  have hnone : ∀ {k : Key}, c k = none → (if (s.inode tip).isDir then cachePurge c a.tdvp else c) k = none := by
    intro k hk
    split
    case isTrue => simp [cachePurge, Cache.forget, hk]
    case isFalse => exact hk
  simp only []
  generalize (if (s.inode tip).isDir then cachePurge c a.tdvp else c) = c' at hpurged hnone ⊢
  cases hrewrite : ufsDirrewrite (renameQuash a tip doingdirectory newparent (-1) 0 s) a.tdvp a.tname tip fip with
  | mk x s₁ =>
      have hcontents := contents_ufsDirrewrite
        (renameQuash a tip doingdirectory newparent (-1) 0 s) a.tdvp a.tname tip fip
      rw [hrewrite, contents_renameQuash] at hcontents
      rw [hrewrite] at hexit
      have hafter : Coherent excused dirs ⟨s₁, c'⟩ := by
        rcases hcontents with hsame | ⟨-, hset⟩
        · exact hpurged.congr hsame
        · exact hpurged.update_none hset (hnone htkey) fun hd => absurd hd hto
      split at hexit
      case h_1 s₂ heq =>
          obtain ⟨rfl, rfl⟩ := Prod.mk.inj heq
          exact coherent_renameUnlink (hafter.congr contents_renameQuash) hdir hfrom hnew (hnone hkey) hexit
      case h_2 x' s₂ hx heq =>
          obtain ⟨rfl, rfl⟩ := Prod.mk.inj heq
          split
          case h_1 s₃ hzero => exact (hx (Prod.mk.inj hzero).1).elim
          case h_2 => exact coherent_renameBad hafter contents_renameQuash hexit

/-- From step 1 on. -/
theorem coherent_renameLink {tip : Option Nat} {doingdirectory : Bool} (h : Coherent excused dirs ⟨s, c⟩)
    (hkey : c (a.fdvp, a.fname) = none) (htkey : c (a.tdvp, a.tname) = none)
    (hexit : renameLink savename a fip tip doingdirectory newparent s = .unlockout e s') :
    Coherent excused dirs ⟨s', linkCache a fip tip doingdirectory newparent makeEntry s c⟩ := by
  have hlinked : Coherent excused dirs ⟨s.adjust fip 1 1, c⟩ := h.congr (contents_adjust ..)
  unfold renameLink at hexit
  split at hexit
  case isTrue => cases hexit
  case isFalse =>
      cases tip with
      | none => exact coherent_renameNew hdir hfrom hto hnew hlinked hkey htkey hexit
      | some tip => exact coherent_renameOver hdir hfrom hto hnew hlinked hkey htkey hexit

end Update

/-- The checks, and what follows them. -/
theorem coherent_renameChecks {fip : Nat} {tip : Option Nat} {e : Int} (h : Coherent excused dirs ⟨s, c⟩)
    (hdir : dirs a.fdvp) (hfrom : a.fname = dotName → (s.inode fip).isDir = true) (hto : a.tname ≠ dotName)
    (hkey : c (a.fdvp, a.fname) = none) (htkey : c (a.tdvp, a.tname) = none)
    (hexit : renameChecks savename a fip tip s = .unlockout e s') :
    Coherent excused dirs ⟨s', checksCache a fip tip makeEntry s c⟩ := by
  have hstay : ∀ {x : Int}, RenameExit.unlockout x s = .unlockout e s' → Coherent excused dirs ⟨s', c⟩ := by
    intro x hend
    cases hend
    exact h
  refine coherent_ite hexit (fun _ => hstay) fun _ hexit => ?_
  refine coherent_ite hexit (fun _ => hstay) fun _ hexit => ?_
  refine coherent_ite hexit (fun _ => hstay) fun _ hexit => ?_
  refine coherent_ite hexit (fun _ => hstay) fun _ hexit => ?_
  refine coherent_ite hexit (fun _ => hstay) fun hname hexit => ?_
  refine coherent_ite hexit (fun _ => hstay) fun _ hexit => ?_
  have hdot : a.fname ≠ dotName := fun hd => hname ⟨hfrom hd, .inl hd⟩
  refine coherent_ite hexit (fun hnew hexit => ?_) fun hold hexit => ?_
  · refine coherent_ite hexit (fun _ => hstay) fun _ hexit => ?_
    split at hexit
    case h_1 => cases hexit
    case h_2 => cases hexit
    case h_3 x hpath =>
        rw [hpath]
        by_cases hx : x = 0
        · subst hx
          rw [if_neg (by simp)] at hexit
          split at hexit
          case isTrue => cases hexit
          case isFalse =>
              have hne : a.fdvp ≠ a.tdvp := (of_decide_eq_true hnew).2
              exact coherent_renameLink hdir hdot hto (fun _ => hne) h hkey htkey hexit
        · rw [if_pos hx] at hexit
          split
          case h_1 heq => exact absurd (Checkpath.error.inj heq) hx
          case h_2 => exact hstay hexit
  · exact coherent_renameLink hdir hdot hto (fun hno => absurd hno hold) h hkey htkey hexit

theorem tname_ne_dot {tip : Option Nat} (h : lookupTarget s a = .ok tip) (hdot : HasDot s a.tdvp) :
    a.tname ≠ dotName := by
  intro hname
  unfold lookupTarget at h
  rw [hname, hdot] at h
  grind

/-- `ufs_rename` keeps the names coherent. -/
theorem coherent_rename {e : Int} (h : Coherent excused dirs ⟨s, c⟩) (hdirs : (s.inode a.fdvp).isDir = true)
    (hfdvp : dirs a.fdvp) (htdvp : dirs a.tdvp) (hexit : renameExit savename s a = .unlockout e s') :
    Coherent excused dirs ⟨s', renameCache s a makeEntry c⟩ := by
  refine coherent_ite hexit (fun _ hend => ?_) fun _ hexit => ?_
  · cases hend
    exact h
  · have hfrom := coherent_relookupFrom makeEntry h hfdvp
    have hto := coherent_relookupTo hfrom htdvp
    cases hfip : s.lookupIno a.fdvp a.fname with
    | none =>
        simp only [hfip] at hexit
        cases hexit
        exact hfrom
    | some fip =>
        simp only [hfip] at hexit
        cases htip : lookupTarget s a with
        | error x =>
            simp only [htip] at hexit
            cases hexit
            exact hto
        | ok tip =>
            simp only [htip] at hexit
            have hkey : relookupTo s a (relookupFrom s a makeEntry c) (a.fdvp, a.fname) = none := by
              rw [relookupTo_eq htip]
              exact cacheLookup_eq_none (relookupFrom_key hfip)
            have hself : a.fname = dotName → (s.inode fip).isDir = true := by
              intro hname
              have hdot := h.dots a.fdvp hfdvp
              have hfound := lookup_of_lookupIno hfip
              rw [hname] at hfound
              have : a.fdvp = fip := Option.some.inj (hdot.symm.trans hfound)
              rwa [← this]
            exact coherent_renameChecks hto hfdvp hself (tname_ne_dot htip (h.dots a.tdvp htdvp)) hkey
              (relookupTo_key htip) hexit

end UfsX.Proofs.NameCache
