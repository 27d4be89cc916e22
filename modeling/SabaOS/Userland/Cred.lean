import Mathlib.Data.UInt
import Mathlib.Data.List.Sort
import SabaOS.Lib.Tracking

namespace SabaOS.Userland.Creds

open SabaOS.Lib

def eperm : Int := 1

def einval : Int := 22

def capSetgid : UInt32 := 6

def capSetuid : UInt32 := 7

structure IdSet where
  rid : UInt32 := -1
  eid : UInt32 := -1
  fsid : UInt32 := -1
  sid : UInt32 := -1
deriving DecidableEq, Repr

def IdSet.contains (ids : IdSet) (id : UInt32) : Bool := ids.rid == id || ids.eid == id || ids.sid == id

structure Cred where
  uids : IdSet := {}
  gids : IdSet := {}
  groups : List UInt32 := []
deriving DecidableEq, Repr

def Cred.hasCapability (c : Cred) (_cap : UInt32) : Bool := c.uids.eid == 0

def Cred.ids (c : Cred) (isGid : Bool) : IdSet := if isGid then c.gids else c.uids

def Cred.setIds (c : Cred) (isGid : Bool) (ids : IdSet) : Cred :=
  if isGid then { c with gids := ids } else { c with uids := ids }

-- `dumpable` is the flag of the thread's process
structure Thread where
  cred : Cred
  dumpable : Bool := true
deriving DecidableEq, Repr

def Thread.store (t : Thread) (isGid : Bool) (ids : IdSet) (keep : Bool) : Thread :=
  { cred := t.cred.setIds isGid ids, dumpable := t.dumpable && keep }

def Thread.capable (t : Thread) (isGid : Bool) : Bool :=
  t.cred.hasCapability (if isGid then capSetgid else capSetuid)

def Thread.setid (t : Thread) (isGid : Bool) (id : UInt32) : Int × Thread :=
  let ids := t.cred.ids isGid
  if t.capable isGid then
    (0,t.store isGid ⟨id,id,id,id⟩ (id == ids.eid))
  else if ids.contains id then
    (0,t.store isGid { ids with eid := id, fsid := id } (id == ids.eid))
  else (-eperm,t)

def keepId : UInt32 := -1

def IdSet.allows (ids : IdSet) (id : UInt32) : Bool := id == keepId || ids.contains id

def chosen (id old : UInt32) : UInt32 := if id = keepId then old else id

def IdSet.choose (ids : IdSet) (rid eid sid : UInt32) : IdSet :=
  { rid := chosen rid ids.rid, eid := chosen eid ids.eid, fsid := chosen eid ids.eid
    sid := chosen sid ids.sid }

def Thread.setresid (t : Thread) (isGid : Bool) (rid eid sid : UInt32) : Int × Thread :=
  let ids := t.cred.ids isGid
  let newIds := ids.choose rid eid sid
  let keep := newIds.eid == ids.eid && newIds.fsid == ids.fsid
  if t.capable isGid then (0,t.store isGid newIds keep)
  else if !ids.allows eid then (-eperm,t)
  else if !ids.allows rid then (-eperm,t)
  else if !ids.allows sid then (-eperm,t)
  else (0,t.store isGid newIds keep)

-- `list` is the user's array, and `qsort` sorts what was copied from it
def Thread.setgroups (t : Thread) (size : Int) (list : Nat → UInt32) : Int × Thread :=
  if size < 0 then (-einval,t)
  else
    let groups := ((List.range size.toNat).map list).insertionSort (· ≤ ·)
    (0,{ t with cred := { t.cred with groups := groups } })

inductive Call where
  | setuid (uid : UInt32)
  | setgid (gid : UInt32)
  | setreuid (ruid euid : UInt32)
  | setregid (rgid egid : UInt32)
  | setresuid (ruid euid suid : UInt32)
  | setresgid (rgid egid sgid : UInt32)
  | setgroups (size : Int) (list : Nat → UInt32)

def Thread.call (t : Thread) : Call → Int × Thread
  | .setuid uid => t.setid false uid
  | .setgid gid => t.setid true gid
  | .setreuid ruid euid => t.setresid false ruid euid (-1)
  | .setregid rgid egid => t.setresid true rgid egid (-1)
  | .setresuid ruid euid suid => t.setresid false ruid euid suid
  | .setresgid rgid egid sgid => t.setresid true rgid egid sgid
  | .setgroups size list => t.setgroups size list

def Call.isSetgroups : Call → Bool
  | .setgroups _ _ => true
  | _ => false

def Step (t : Thread) (c : Call) (t' : Thread) : Prop := (t.call c).2 = t'

def IdSet.real (ids : IdSet) : List UInt32 := [ids.rid,ids.eid,ids.sid]

def IdSet.Within (ids old : IdSet) : Prop := ∀ id ∈ ids.real, id ∈ old.real

def Cred.Within (c old : Cred) : Prop := c.uids.Within old.uids ∧ c.gids.Within old.gids

def Thread.Powerless (t : Thread) : Prop := ∀ cap, t.cred.hasCapability cap = false

def Thread.Rootless (t : Thread) : Prop := 0 ∉ t.cred.uids.real

@[simp]
theorem setIds_groups (c : Cred) (isGid : Bool) (ids : IdSet) :
    (c.setIds isGid ids).groups = c.groups := by
  cases isGid <;> rfl

section Ids

variable {ids old older : IdSet} {rid eid sid id : UInt32}

theorem contains_iff : ids.contains id = true ↔ id ∈ ids.real := by
  simp only [IdSet.contains,IdSet.real,Bool.or_eq_true,beq_iff_eq,List.mem_cons,List.not_mem_nil,
    or_false,or_assoc,eq_comm (b := id)]

theorem IdSet.Within.refl : ids.Within ids := fun _ h => h

theorem IdSet.Within.trans (h : ids.Within old) (h' : old.Within older) : ids.Within older :=
  fun id hid => h' id (h id hid)

theorem within_iff : ids.Within old ↔ ids.rid ∈ old.real ∧ ids.eid ∈ old.real ∧ ids.sid ∈ old.real := by
  simp [IdSet.Within,IdSet.real]

theorem within_effective (h : ids.contains eid = true) :
    IdSet.Within { ids with eid := eid, fsid := eid } ids := by
  have hr : ids.rid ∈ ids.real := by simp [IdSet.real]
  have hs : ids.sid ∈ ids.real := by simp [IdSet.real]
  exact within_iff.mpr ⟨hr,contains_iff.mp h,hs⟩

theorem chosen_mem (h : ids.allows id = true) {prev : UInt32} (hprev : prev ∈ ids.real) :
    chosen id prev ∈ ids.real := by
  unfold chosen
  split_ifs with hkeep
  · exact hprev
  · have hc : ids.contains id = true := by simpa [IdSet.allows,hkeep] using h
    exact contains_iff.mp hc

theorem within_choose (hr : ids.allows rid = true) (he : ids.allows eid = true)
    (hs : ids.allows sid = true) : (ids.choose rid eid sid).Within ids := by
  refine within_iff.mpr ⟨chosen_mem hr ?_,chosen_mem he ?_,chosen_mem hs ?_⟩
  all_goals simp [IdSet.real]

end Ids

section Steps

variable {t t' : Thread} {isGid : Bool} {rid eid sid id : UInt32} {c : Call}

theorem Cred.Within.refl {cr : Cred} : cr.Within cr := ⟨.refl,.refl⟩

theorem Cred.Within.trans {cr old older : Cred} (h : cr.Within old) (h' : old.Within older) :
    cr.Within older := ⟨h.1.trans h'.1,h.2.trans h'.2⟩

theorem within_setIds {cr : Cred} {ids : IdSet} (h : ids.Within (cr.ids isGid)) :
    (cr.setIds isGid ids).Within cr := by
  cases isGid with
  | false => exact ⟨h,.refl⟩
  | true => exact ⟨.refl,h⟩

theorem capable_powerless (h : t.Powerless) : t.capable isGid = false := h _

theorem powerless_iff : t.Powerless ↔ t.cred.uids.eid ≠ 0 := by
  simp [Thread.Powerless,Cred.hasCapability]

theorem Thread.Rootless.powerless (h : t.Rootless) : t.Powerless := by
  refine powerless_iff.mpr ?_
  rintro he
  apply h
  simp [IdSet.real,he]

theorem rootless_within (h : t.Rootless) (hw : t'.cred.Within t.cred) : t'.Rootless :=
  fun hz => h (hw.1 0 hz)

theorem setid_within (h : t.Powerless) : (t.setid isGid id).2.cred.Within t.cred := by
  simp only [Thread.setid,capable_powerless h,Bool.false_eq_true,if_false]
  split_ifs with hc
  · exact within_setIds (within_effective hc)
  · exact .refl

theorem setresid_within (h : t.Powerless) : (t.setresid isGid rid eid sid).2.cred.Within t.cred := by
  simp only [Thread.setresid,capable_powerless h,Bool.false_eq_true,if_false]
  split_ifs with he hr hs
  · exact .refl
  · exact .refl
  · exact .refl
  · refine within_setIds (within_choose ?_ ?_ ?_)
    all_goals simp_all

theorem call_within (h : t.Powerless) : (t.call c).2.cred.Within t.cred := by
  cases c with
  | setuid uid => exact setid_within h
  | setgid gid => exact setid_within h
  | setreuid ruid euid => exact setresid_within h
  | setregid rgid egid => exact setresid_within h
  | setresuid ruid euid suid => exact setresid_within h
  | setresgid rgid egid sgid => exact setresid_within h
  | setgroups size list =>
    simp only [Thread.call,Thread.setgroups]
    split_ifs with hneg
    · exact .refl
    · exact ⟨.refl,.refl⟩

theorem setid_failed (h : (t.setid isGid id).1 < 0) : (t.setid isGid id).2 = t := by
  simp only [Thread.setid] at h ⊢
  cases hcap : t.capable isGid with
  | true => simp [hcap] at h
  | false =>
    cases hc : (t.cred.ids isGid).contains id with
    | true => simp [hcap,hc] at h
    | false => simp

theorem setresid_failed (h : (t.setresid isGid rid eid sid).1 < 0) :
    (t.setresid isGid rid eid sid).2 = t := by
  simp only [Thread.setresid] at h ⊢
  split_ifs at h ⊢
  · simp at h
  · rfl
  · rfl
  · rfl
  · simp at h

theorem call_failed (h : (t.call c).1 < 0) : (t.call c).2 = t := by
  cases c with
  | setuid uid => exact setid_failed h
  | setgid gid => exact setid_failed h
  | setreuid ruid euid => exact setresid_failed h
  | setregid rgid egid => exact setresid_failed h
  | setresuid ruid euid suid => exact setresid_failed h
  | setresgid rgid egid sgid => exact setresid_failed h
  | setgroups size list =>
    simp only [Thread.call,Thread.setgroups] at h ⊢
    split_ifs at h ⊢ with hneg
    · rfl
    · simp at h

theorem setid_groups : (t.setid isGid id).2.cred.groups = t.cred.groups := by
  simp only [Thread.setid]
  split_ifs
  · simp [Thread.store]
  · simp [Thread.store]
  · rfl

theorem setresid_groups : (t.setresid isGid rid eid sid).2.cred.groups = t.cred.groups := by
  simp only [Thread.setresid]
  split_ifs
  · simp [Thread.store]
  · rfl
  · rfl
  · rfl
  · simp [Thread.store]

theorem call_groups (h : c.isSetgroups = false) : (t.call c).2.cred.groups = t.cred.groups := by
  cases c with
  | setuid uid => exact setid_groups
  | setgid gid => exact setid_groups
  | setreuid ruid euid => exact setresid_groups
  | setregid rgid egid => exact setresid_groups
  | setresuid ruid euid suid => exact setresid_groups
  | setresgid rgid egid sgid => exact setresid_groups
  | setgroups size list => cases h

end Steps

section Runs

variable {t t' : Thread} {calls : List Call}

theorem run_within (h : Along Step (fun u _ _ => u.Powerless) t calls)
    (hrun : Runs Step t calls t') : t'.cred.Within t.cred := by
  induction calls generalizing t with
  | nil =>
    cases hrun
    exact .refl
  | cons c calls ih =>
    obtain ⟨u,hu,hrun⟩ := hrun
    obtain ⟨hpow,hrest⟩ := h u hu
    obtain rfl := hu
    exact (ih hrest hrun).trans (call_within hpow)

theorem run_rootless (h : t.Rootless) (hrun : Runs Step t calls t') :
    t'.cred.Within t.cred ∧ t'.Rootless := by
  induction calls generalizing t with
  | nil =>
    cases hrun
    exact ⟨.refl,h⟩
  | cons c calls ih =>
    obtain ⟨u,rfl,hrun⟩ := hrun
    have hw : (t.call c).2.cred.Within t.cred := call_within h.powerless
    obtain ⟨hrest,hroot⟩ := ih (rootless_within h hw) hrun
    exact ⟨hrest.trans hw,hroot⟩

theorem confined (t : Thread) (calls : List Call) (t' : Thread) (hrun : Runs Step t calls t') :
    (Along Step (fun u _ _ => u.Powerless) t calls → t'.cred.Within t.cred) ∧
      (∀ c, (t'.call c).1 < 0 → (t'.call c).2 = t') ∧
      (∀ c, c.isSetgroups = false → (t'.call c).2.cred.groups = t'.cred.groups) ∧
      (t.Rootless → t'.cred.Within t.cred ∧ t'.Powerless) := by
  refine ⟨fun h => run_within h hrun,fun c => call_failed,fun c => call_groups,?_⟩
  intro h
  obtain ⟨hw,hroot⟩ := run_rootless h hrun
  exact ⟨hw,hroot.powerless⟩

end Runs

def user : Thread := { cred := { uids := ⟨1000,1000,1000,1000⟩, gids := ⟨1000,100,100,1000⟩ } }

def userCalls : List Call := [.setreuid (-1) 1000,.setuid 0,.setgid 1000]

theorem user_rootless : user.Rootless := by
  unfold Thread.Rootless
  decide

theorem user_confined :
    ∃ t', Runs Step user userCalls t' ∧ t'.cred.Within user.cred ∧ t'.Powerless := by
  have hrun : Runs Step user userCalls
      { cred := { user.cred with gids := ⟨1000,1000,1000,1000⟩ }, dumpable := false } :=
    ⟨_,rfl,_,rfl,_,rfl,rfl⟩
  exact ⟨_,hrun,(confined user userCalls _ hrun).2.2.2 user_rootless⟩

def savedRoot : Thread := { cred := { uids := ⟨1000,1000,1000,0⟩, gids := ⟨1000,1000,1000,1000⟩ } }

theorem saved_root_returns : savedRoot.Powerless ∧
    ∃ t', Runs Step savedRoot [.setuid 0,.setuid 42] t' ∧ t'.cred.uids.rid ∉ savedRoot.cred.uids.real := by
  refine ⟨powerless_iff.mpr (by decide),_,⟨_,rfl,_,rfl,rfl⟩,?_⟩
  decide

end SabaOS.Userland.Creds
