import UfsX.Lib.Run
import UfsX.Ufs.Setid
import UfsX.Proofs.Consistent

/-!
# `UfsX.Proofs.Setid`: do the set-id bits survive tampering?

A file is tampered with when a caller other than the superuser has stored a byte in it or
has changed its owner or its group. A successful `ufs_chmod` ends that.

Three functions clear the bits after such a call, and all three ask whether the caller
*is* the superuser before they do. So the bits of a tampered file are clear only where
they were clear before (`setid_cleared`).
-/

set_option autoImplicit false

namespace UfsX.Proofs.Setid

open UfsX.Lib UfsX.Ufs.Setid Relation
open UfsX.Ffs (Fs)
open UfsX.Ffs.Write (Uio Ioflag)

/-! ### The rule -/

/-- A file with a mark that it was tampered with. -/
structure St where
  ip : Node
  tampered : Bool

/-- The call that returned `r` was one of tampering with `ip`. -/
def Tampers (cred : Cred) (ip : Node) (r : Ret) : Prop :=
  cred.issuser = false ∧ (0 < r.stored ∨ r.ip.uid ≠ ip.uid ∨ r.ip.gid ≠ ip.gid)

instance (cred : Cred) (ip : Node) (r : Ret) : Decidable (Tampers cred ip r) := by
  unfold Tampers
  infer_instance

/-- A `ufs_chmod` that returned without an error. -/
def chmodDone : Call → Ret → Bool
  | .chmod _ _ _, r => r.error == 0
  | _, _ => false

/-- The state that a call leaves. -/
def St.after (s : St) (cred : Cred) (c : Call) (r : Ret) : St :=
  ⟨r.ip, if chmodDone c r then false else decide (Tampers cred s.ip r) || s.tampered⟩

/-- One call that returns. `P` restricts the calls. -/
inductive Step (fs : Fs) (P : St → Cred → Call → Ret → Prop) : St → St → Prop
  | mk {s : St} {cred : Cred} {c : Call} {r : Ret} (hP : P s cred c r) (heq : c.exec fs cred s.ip = some r) :
      Step fs P s (s.after cred c r)

/-- The set-id bits of a tampered file are clear in the in-core mode and in the dinode. -/
def Safe (s : St) : Prop := s.tampered = true → s.ip.mode &&& setid = 0 ∧ s.ip.diMode &&& setid = 0

/-- The checks of `ufs_chmod` let the call through. -/
def Granted (cred : Cred) (authErr : Nat) (ip : Node) (mode : BitVec 16) : Prop :=
  authErr = 0 ∧ (cred.issuser = true ∨ (ip.vtype = .vdir ∨ mode &&& ISTXT = 0) ∧
    (cred.member ip.gid = true ∨ mode &&& ISGID = 0) ∧ (ip.uid = cred.uid ∨ mode &&& ISUID = 0))

/-- Who tampers with the file finds its set-id bits clear, and a `ufs_chmod` that sets them
on a tampered file does not fail after it has set them. -/
def Meets (s : St) (cred : Cred) (c : Call) (r : Ret) : Prop :=
  (Tampers cred s.ip r → s.ip.mode &&& setid = 0) ∧
    ∀ authErr updateErr mode, c = .chmod authErr updateErr mode → Granted cred authErr s.ip mode →
      updateErr ≠ 0 → s.tampered = true → mode &&& setid = 0

/-! ### The words -/

theorem mask_setid (m : BitVec 16) : m &&& ~~~setid &&& setid = 0 := by
  rw [BitVec.and_assoc]
  exact BitVec.and_zero

/-- The bits of a mode that `ufs_chmod` stores are those it was asked for. -/
theorem chmod_mask (m mode x : BitVec 16) (hx : ~~~allperms &&& x = 0) (hx' : allperms &&& x = x) :
    (m &&& ~~~allperms ||| mode &&& allperms) &&& x = mode &&& x := by
  rw [BitVec.and_or_distrib_right, BitVec.and_assoc, BitVec.and_assoc, hx, hx']
  simp

/-! ### What the calls do to a mode -/

/-- A call does not touch the mode, or clears its set-id bits for the superuser. -/
inductive ModeKept (cred : Cred) (ip ip' : Node) : Prop
  | same (hmode : ip'.mode = ip.mode) (hdi : ip'.diMode = ip.diMode)
  | cleared (hsu : cred.issuser = true) (hmode : ip'.mode = ip.mode &&& ~~~setid)
      (hdi : ip'.diMode = ip.mode &&& ~~~setid)

theorem clearSetid_kept (cred : Cred) (ip : Node) (resid left : Int) :
    ModeKept cred ip (clearSetid cred ip resid left) := by
  unfold clearSetid
  split
  · split
    · next hsu => exact .cleared hsu rfl rfl
    · exact .same rfl rfl
  · exact .same rfl rfl

theorem clearSetid_owner (cred : Cred) (ip : Node) (resid left : Int) :
    (clearSetid cred ip resid left).uid = ip.uid ∧ (clearSetid cred ip resid left).gid = ip.gid := by
  unfold clearSetid
  split
  · split
    · exact ⟨rfl, rfl⟩
    · exact ⟨rfl, rfl⟩
  · exact ⟨rfl, rfl⟩

/-- What is common to the two write calls. -/
structure Wrote (cred : Cred) (ip ip' : Node) : Prop where
  kept : ModeKept cred ip ip'
  uid : ip'.uid = ip.uid
  gid : ip'.gid = ip.gid

theorem wrote_self (cred : Cred) (ip : Node) : Wrote cred ip ip := ⟨.same rfl rfl, rfl, rfl⟩

theorem wrote_clear (cred : Cred) (ip : Node) (resid left : Int) :
    Wrote cred ip (clearSetid cred ip resid left) :=
  ⟨clearSetid_kept cred ip resid left, (clearSetid_owner cred ip resid left).1,
    (clearSetid_owner cred ip resid left).2⟩

/-- Only the modes and the owner matter: a node that differs elsewhere was written alike. -/
theorem Wrote.congr {cred : Cred} {ip ip' jp jp' : Node} (h : Wrote cred ip ip')
    (hip : jp.mode = ip.mode ∧ jp.diMode = ip.diMode ∧ jp.uid = ip.uid ∧ jp.gid = ip.gid)
    (hip' : jp'.mode = ip'.mode ∧ jp'.diMode = ip'.diMode ∧ jp'.uid = ip'.uid ∧ jp'.gid = ip'.gid) :
    Wrote cred jp jp' := by
  obtain ⟨hm, hdm, huid, hgid⟩ := hip
  obtain ⟨hm', hdm', huid', hgid'⟩ := hip'
  refine ⟨?_, by rw [huid', h.uid, huid], by rw [hgid', h.gid, hgid]⟩
  cases h.kept with
  | same hmode hdi => exact .same (by rw [hm', hmode, hm]) (by rw [hdm', hdi, hdm])
  | cleared hsu hmode hdi => exact .cleared hsu (by rw [hm', hmode, hm]) (by rw [hdm', hdi, hm])

/-- A new size makes no difference. -/
theorem Wrote.size {cred : Cred} {ip ip' : Node} {n : Nat} (h : Wrote cred { ip with size := n } ip') :
    Wrote cred ip ip' :=
  h.congr ⟨rfl, rfl, rfl, rfl⟩ ⟨rfl, rfl, rfl, rfl⟩

theorem Wrote.extsize {cred : Cred} {ip ip' : Node} {n : Nat} (h : Wrote cred { ip with diExtsize := n } ip') :
    Wrote cred ip ip' :=
  h.congr ⟨rfl, rfl, rfl, rfl⟩ ⟨rfl, rfl, rfl, rfl⟩

theorem Wrote.setSize {cred : Cred} {ip ip' : Node} (h : Wrote cred ip ip') (n : Nat) :
    Wrote cred ip { ip' with size := n } :=
  h.congr ⟨rfl, rfl, rfl, rfl⟩ ⟨rfl, rfl, rfl, rfl⟩

theorem Wrote.setExtsize {cred : Cred} {ip ip' : Node} (h : Wrote cred ip ip') (n : Nat) :
    Wrote cred ip { ip' with diExtsize := n } :=
  h.congr ⟨rfl, rfl, rfl, rfl⟩ ⟨rfl, rfl, rfl, rfl⟩

section Write

variable {env : WriteEnv} {fs : Fs} {maxfilesize : UInt64} {cred : Cred} {ioflag : Ioflag} {fuel : Nat}
  {ip : Node} {uio : Uio} {r : Ret}

theorem writeAt_wrote (heq : writeAt env fs maxfilesize cred ioflag fuel ip uio = some r) :
    Wrote cred ip r.ip := by
  unfold writeAt at heq
  split at heq
  · cases heq
  · split at heq
    · obtain rfl := Option.some.inj heq
      exact wrote_self cred ip
    · obtain ⟨⟨error, size, resid, left⟩, -, rfl⟩ := Option.map_eq_some_iff.mp heq
      have hclear := (wrote_clear cred { ip with size } resid left).size
      dsimp only
      split
      · split
        · exact hclear.setSize _
        · exact hclear
      · split
        · exact hclear
        · exact hclear

theorem ffsWrite_wrote (heq : ffsWrite env fs maxfilesize cred ioflag fuel ip uio = some r) :
    Wrote cred ip r.ip := by
  unfold ffsWrite at heq
  split at heq
  · cases heq
  · split at heq
    · dsimp only at heq
      generalize (if ioflag.append then { uio with offset := ip.size } else uio : Uio) = uio at heq
      split at heq
      · obtain rfl := Option.some.inj heq
        exact wrote_self cred ip
      · exact writeAt_wrote heq
    · exact writeAt_wrote heq
    · cases heq
    · cases heq

theorem ffsExtwrite_wrote (heq : ffsExtwrite env fs cred ioflag fuel ip uio = some r) :
    Wrote cred ip r.ip := by
  unfold ffsExtwrite at heq
  dsimp only at heq
  generalize (if ioflag.append then { uio with offset := ip.diExtsize } else uio : Uio) = uio at heq
  split at heq
  · cases heq
  · split at heq
    · obtain rfl := Option.some.inj heq
      exact wrote_self cred ip
    · obtain ⟨⟨error, extsize, rest⟩, -, rfl⟩ := Option.map_eq_some_iff.mp heq
      have hclear := (wrote_clear cred { ip with diExtsize := extsize } uio.resid rest.resid).extsize
      dsimp only
      split
      · split
        · exact hclear.setExtsize _
        · exact hclear
      · split
        · exact hclear
        · exact hclear

end Write

theorem ufsChown_kept (cred : Cred) (authErr updateErr : Nat) (ip : Node) (uid gid : Nat) :
    ModeKept cred ip (ufsChown cred authErr updateErr ip uid gid).2 := by
  unfold ufsChown
  generalize (if uid = vnoval then ip.uid else uid) = uid
  generalize (if gid = vnoval then ip.gid else gid) = gid
  dsimp only
  split
  · exact .same rfl rfl
  · split
    · exact .same rfl rfl
    · split
      · split
        · next hsu => exact .cleared hsu rfl rfl
        · exact .same rfl rfl
      · exact .same rfl rfl

/-- `ufs_chmod` refuses and changes nothing, or stores what it was asked for. -/
theorem ufsChmod_cases (cred : Cred) (authErr updateErr : Nat) (ip : Node) (mode : BitVec 16) :
    (¬ Granted cred authErr ip mode ∧ (ufsChmod cred authErr updateErr ip mode).2 = ip ∧
      (ufsChmod cred authErr updateErr ip mode).1 ≠ 0) ∨
    (Granted cred authErr ip mode ∧ ufsChmod cred authErr updateErr ip mode =
      (updateErr, ip.setMode (ip.mode &&& ~~~allperms ||| mode &&& allperms))) := by
  unfold ufsChmod Granted
  split
  · next h => exact .inl ⟨fun hg => h hg.1, rfl, h⟩
  · next h0 =>
      have h0 : authErr = 0 := by omega
      split
      · next h => exact .inl ⟨by grind, rfl, (by decide : EFTYPE ≠ 0)⟩
      · split
        · next h => exact .inl ⟨by grind, rfl, (by decide : EPERM ≠ 0)⟩
        · split
          · next h => exact .inl ⟨by grind, rfl, (by decide : EPERM ≠ 0)⟩
          · exact .inr ⟨by grind, rfl⟩

/-- A call is a `ufs_chmod`, or leaves the mode to `ModeKept`. -/
theorem exec_cases {fs : Fs} {cred : Cred} {ip : Node} {c : Call} {r : Ret} (heq : c.exec fs cred ip = some r) :
    (∃ authErr updateErr mode, c = .chmod authErr updateErr mode ∧
      r = ⟨(ufsChmod cred authErr updateErr ip mode).1, (ufsChmod cred authErr updateErr ip mode).2, 0⟩) ∨
    ((∀ authErr updateErr mode, c ≠ .chmod authErr updateErr mode) ∧ chmodDone c r = false ∧
      ModeKept cred ip r.ip) := by
  cases c with
  | write env maxfilesize ioflag fuel uio => exact .inr ⟨by simp, rfl, (ffsWrite_wrote heq).kept⟩
  | extwrite env ioflag fuel uio => exact .inr ⟨by simp, rfl, (ffsExtwrite_wrote heq).kept⟩
  | chown authErr updateErr uid gid =>
      obtain rfl := Option.some.inj heq
      exact .inr ⟨by simp, rfl, ufsChown_kept cred authErr updateErr ip uid gid⟩
  | chmod authErr updateErr mode => exact .inl ⟨authErr, updateErr, mode, rfl, (Option.some.inj heq).symm⟩

/-! ### One call -/

section Step

variable {fs : Fs} {s : St} {cred : Cred} {c : Call} {r : Ret}

/-- The in-core mode and the one of the dinode stay the same word. -/
theorem exec_sync {ip : Node} (hsync : ip.diMode = ip.mode) (heq : c.exec fs cred ip = some r) :
    r.ip.diMode = r.ip.mode := by
  obtain ⟨authErr, updateErr, mode, -, rfl⟩ | ⟨-, -, hkept⟩ := exec_cases heq
  · obtain ⟨-, hip, -⟩ | ⟨-, hgr⟩ := ufsChmod_cases cred authErr updateErr ip mode
    · rw [hip]
      exact hsync
    · rw [hgr]
      rfl
  · cases hkept with
    | same hmode hdi => rw [hmode, hdi, hsync]
    | cleared hsu hmode hdi => rw [hmode, hdi]

/-- `ufs_chmod` is no tampering. -/
theorem not_tampers_chmod {ip : Node} {authErr updateErr : Nat} {mode : BitVec 16} :
    ¬ Tampers cred ip ⟨(ufsChmod cred authErr updateErr ip mode).1, (ufsChmod cred authErr updateErr ip mode).2, 0⟩ := by
  rintro ⟨-, hst | hst⟩
  · exact absurd hst (by simp)
  · obtain ⟨-, hip, -⟩ | ⟨-, hgr⟩ := ufsChmod_cases cred authErr updateErr ip mode
    · rw [hip] at hst
      simp at hst
    · rw [hgr] at hst
      simp [Node.setMode] at hst

/-- After a call that is no tampering, only the mark of before counts. -/
theorem safe_after_of_not (hno : ¬ Tampers cred s.ip r) :
    Safe (s.after cred c r) ↔ (chmodDone c r = false → s.tampered = true →
      r.ip.mode &&& setid = 0 ∧ r.ip.diMode &&& setid = 0) := by
  unfold Safe St.after
  cases chmodDone c r with
  | true => simp
  | false => simp [hno]

theorem chmod_after_iff (hs : Safe s) (authErr updateErr : Nat) (mode : BitVec 16) :
    Safe (s.after cred (.chmod authErr updateErr mode)
        ⟨(ufsChmod cred authErr updateErr s.ip mode).1, (ufsChmod cred authErr updateErr s.ip mode).2, 0⟩) ↔
      (Granted cred authErr s.ip mode → updateErr ≠ 0 → s.tampered = true → mode &&& setid = 0) := by
  rw [safe_after_of_not not_tampers_chmod]
  obtain ⟨hden, hip, -⟩ | ⟨hgr, heq⟩ := ufsChmod_cases cred authErr updateErr s.ip mode
  · -- refused: nothing has changed
    rw [hip]
    exact iff_of_true (fun _ => hs) fun hgr => absurd hgr hden
  · have hbits : (s.ip.mode &&& ~~~allperms ||| mode &&& allperms) &&& setid = mode &&& setid :=
      chmod_mask _ _ _ (by decide) (by decide)
    rw [heq]
    simp only [chmodDone, Node.setMode, hbits, and_self, hgr, true_implies, beq_eq_false_iff_ne]

/-- A call leaves a safe file safe exactly when it meets the condition. -/
theorem safe_after_iff (hsync : s.ip.diMode = s.ip.mode) (hs : Safe s) (heq : c.exec fs cred s.ip = some r) :
    Safe (s.after cred c r) ↔ Meets s cred c r := by
  obtain ⟨authErr, updateErr, mode, rfl, rfl⟩ | ⟨hne, hdone, hkept⟩ := exec_cases heq
  · rw [chmod_after_iff hs]
    constructor
    · intro h
      refine ⟨fun ht => absurd ht not_tampers_chmod, ?_⟩
      rintro a u m heqc
      cases heqc
      exact h
    · intro h
      exact h.2 _ _ _ rfl
  · have hmeets : Meets s cred c r ↔ (Tampers cred s.ip r → s.ip.mode &&& setid = 0) :=
      ⟨fun h => h.1, fun h => ⟨h, fun a u m heqc => absurd heqc (hne a u m)⟩⟩
    rw [hmeets]
    simp only [Safe, St.after, hdone, Bool.or_eq_true, decide_eq_true_eq, Bool.false_eq_true, if_false]
    cases hkept with
    | same hmode hdi =>
        rw [hmode, hdi, hsync]
        constructor
        · intro h ht
          exact (h (.inl ht)).1
        · rintro h (ht | ht)
          · exact ⟨h ht, h ht⟩
          · exact ⟨(hs ht).1, (hs ht).1⟩
    | cleared hsu hmode hdi =>
        rw [hmode, hdi, mask_setid]
        exact iff_of_true (fun _ => ⟨rfl, rfl⟩) fun ht => absurd ht.1 (by simp [hsu])

/-- A bit of `ALLPERMS` that this caller may not ask `ufs_chmod` for does not appear. -/
theorem bit_kept {ip : Node} {x : BitVec 16} (hx : ~~~allperms &&& x = 0) (hx' : allperms &&& x = x)
    (hdeny : ∀ authErr mode, Granted cred authErr ip mode → mode &&& x = 0) (heq : c.exec fs cred ip = some r)
    (hno : ip.mode &&& x = 0) (hnodi : ip.diMode &&& x = 0) :
    r.ip.mode &&& x = 0 ∧ r.ip.diMode &&& x = 0 := by
  obtain ⟨authErr, updateErr, mode, -, rfl⟩ | ⟨-, -, hkept⟩ := exec_cases heq
  · obtain ⟨-, hip, -⟩ | ⟨hgr, heq'⟩ := ufsChmod_cases cred authErr updateErr ip mode
    · rw [hip]
      exact ⟨hno, hnodi⟩
    · rw [heq']
      have hzero := (chmod_mask ip.mode mode x hx hx').trans (hdeny authErr mode hgr)
      exact ⟨hzero, hzero⟩
  · cases hkept with
    | same hmode hdi => exact ⟨by rw [hmode, hno], by rw [hdi, hnodi]⟩
    | cleared hsu hmode hdi =>
        have hzero : ip.mode &&& ~~~setid &&& x = 0 := by
          rw [BitVec.and_assoc, BitVec.and_comm (~~~setid), ← BitVec.and_assoc, hno]
          exact BitVec.zero_and
        exact ⟨by rw [hmode, hzero], by rw [hdi, hzero]⟩

end Step

/-! ### Runs -/

/-- In every run whose calls meet the condition, a tampered file has its set-id bits clear
in every state, and the next call keeps it so exactly when it meets the condition. In any
state, a caller that is neither the superuser nor the owner does not set `ISUID`, and one
that is neither the superuser nor in the file's group does not set `ISGID`. -/
theorem setid_cleared (fs : Fs) :
    (∀ ip s, ip.diMode = ip.mode → ReflTransGen (Step fs Meets) ⟨ip, false⟩ s →
      Safe s ∧ ∀ cred c r, Call.exec fs cred s.ip c = some r → (Safe (s.after cred c r) ↔ Meets s cred c r)) ∧
    ∀ cred ip c r, Call.exec fs cred ip c = some r → cred.issuser = false →
      (cred.uid ≠ ip.uid → ip.mode &&& ISUID = 0 → ip.diMode &&& ISUID = 0 →
        r.ip.mode &&& ISUID = 0 ∧ r.ip.diMode &&& ISUID = 0) ∧
      (cred.member ip.gid = false → ip.mode &&& ISGID = 0 → ip.diMode &&& ISGID = 0 →
        r.ip.mode &&& ISGID = 0 ∧ r.ip.diMode &&& ISGID = 0) := by
  refine ⟨fun ip s hload hrun => ?_, fun cred ip c r heq hsu => ⟨fun huid => ?_, fun hgid => ?_⟩⟩
  · have hinv := invariant_of_run (fun s : St => s.ip.diMode = s.ip.mode ∧ Safe s)
      (fun {a b} ha hst => by
        obtain ⟨hP, heq⟩ := hst
        exact ⟨exec_sync ha.1 heq, (safe_after_iff ha.1 ha.2 heq).mpr hP⟩)
      ⟨hload, fun h => absurd h (by simp)⟩ hrun
    exact ⟨hinv.2, fun cred c r heq => safe_after_iff hinv.1 hinv.2 heq⟩
  · refine bit_kept (by decide) (by decide) ?_ heq
    rintro authErr mode ⟨-, h | ⟨-, -, h | h⟩⟩
    · exact absurd h (by simp [hsu])
    · exact absurd h.symm huid
    · exact h
  · refine bit_kept (by decide) (by decide) ?_ heq
    rintro authErr mode ⟨-, h | ⟨-, h | h, -⟩⟩
    · exact absurd h (by simp [hsu])
    · exact absurd h (by simp [hgid])
    · exact h

/-- Mode 755 or 4755, owned by user 501. -/
def program (mode : BitVec 16) : Node where
  vtype := .vreg
  mode := mode
  uid := 501
  gid := 20
  size := 0
  append := false
  diMode := mode
  diUid := 501
  diGid := 20
  diExtsize := 0

/-- The owner of the file, who is in its group. -/
def owner : Cred := ⟨501, fun gid => gid == 20⟩

/-- One byte for the attribute area. -/
def oneByte : Call :=
  .extwrite ⟨fun _ => ⟨0, 1, 0, 0⟩, (0, 0), 0, 0, false⟩ ⟨true, false, true, false⟩ 2 ⟨0, 1, fun _ => 0⟩

/-- The owner writes to the attributes of a program that is not set-uid. -/
theorem setid_cleared_plain :
    ∃ s, ReflTransGen (Step tinyFs Meets) ⟨program 0x81ed#16, false⟩ s ∧ s.tampered = true ∧ Safe s := by
  have heq : oneByte.exec tinyFs owner (program 0x81ed#16) =
      some ⟨0, { program 0x81ed#16 with diExtsize := 1 }, 1⟩ := by rfl
  have hrun := ReflTransGen.single (Step.mk (P := Meets) (s := ⟨program 0x81ed#16, false⟩)
    ⟨fun _ => rfl, fun _ _ _ hc => by cases hc⟩ heq)
  exact ⟨_, hrun, rfl, ((setid_cleared tinyFs).1 _ _ rfl hrun).1⟩

/-- The owner, who is not the superuser, writes a byte to the attributes of a set-uid
program. It stays set-uid. -/
theorem setid_survives :
    ¬ ∀ fs ip s, ip.diMode = ip.mode → ReflTransGen (Step fs fun _ _ _ _ => True) ⟨ip, false⟩ s → Safe s := by
  intro hall
  have heq : oneByte.exec tinyFs owner (program 0x89ed#16) =
      some ⟨0, { program 0x89ed#16 with diExtsize := 1 }, 1⟩ := by rfl
  have hsafe := hall tinyFs (program 0x89ed#16) _ rfl (ReflTransGen.single (Step.mk (s := ⟨program 0x89ed#16, false⟩)
    trivial heq))
  exact absurd (hsafe rfl).1 (by decide)

end UfsX.Proofs.Setid
