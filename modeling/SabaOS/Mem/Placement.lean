import SabaOS.Lib.Tracking
import SabaOS.Mem.AddRange
import SabaOS.Mem.Space

namespace SabaOS.Mem
open SabaOS.Klib SabaOS.Lib

variable {b c n : Nat} {l : List MappedRange} {q : Request} {r x : MappedRange}

structure Below (b : Nat) (r : MappedRange) : Prop where
  nonempty : 0 < r.length
  below : r.base + r.length ≤ b
  typed : r.type ≠ .none

theorem Below.endAddr_eq (h : Below b r) (hb : b < 2 ^ 64) : r.endAddr = r.base + r.length :=
  uadd_of_lt (lt_of_le_of_lt h.below hb)

-- Ranges may overlap here, and neither they nor a request need be page-aligned: this is what a
-- call keeps whatever its arguments.
structure Bounded (b : Nat) (l : List MappedRange) (n : Nat) : Prop where
  ids : (l.map MappedRange.id).Nodup
  fresh : ∀ r ∈ l, r.id < n
  each : ∀ r ∈ l, Below b r

theorem Bounded.mono (h : Bounded b l n) (hbc : b ≤ c) : Bounded c l n :=
  ⟨h.ids,h.fresh,fun r hr => ⟨(h.each r hr).nonempty,(h.each r hr).below.trans hbc,
    (h.each r hr).typed⟩⟩

theorem Bounded.perm {l' : List MappedRange} (h : Bounded b l n) (hp : l'.Perm l) :
    Bounded b l' n :=
  ⟨(hp.map _).nodup_iff.mpr h.ids,fun r hr => h.fresh r (hp.mem_iff.mp hr),
    fun r hr => h.each r (hp.mem_iff.mp hr)⟩

theorem below_pieces (hb : b < 2 ^ 64) (hr : Below b r) (hx : x ∈ pieces q n r) :
    Below b x ∧ ¬ q.overlaps x := by
  have h1 := hr.endAddr_eq hb
  have h2 := hr.below
  have h3 := hr.nonempty
  have h4 : q.endAddr < 2 ^ 64 := uadd_lt _ _
  have ht : x.type ≠ .none := (pieces_same hx).1 ▸ hr.typed
  have clear (hlen : 0 < x.length) (hend : x.base + x.length ≤ b)
      (ho : q.endAddr ≤ x.base ∨ x.base + x.length ≤ q.base) : Below b x ∧ ¬ q.overlaps x := by
    have hx : Below b x := ⟨hlen,hend,ht⟩
    refine ⟨hx,?_⟩
    rw [Request.overlaps,hx.endAddr_eq hb]
    omega
  rcases mem_pieces hx with ⟨ho,rfl⟩ | ⟨⟨o1,o2⟩,hq,he,rfl⟩ | ⟨⟨o1,o2⟩,hq,he,rfl⟩ |
    ⟨⟨⟨o1,o2⟩,hq,he⟩,rfl | rfl⟩
  · exact ⟨hr,ho⟩
  · have e1 : (trimLeft q r).base = q.endAddr := by
      simp only [trimLeft,uadd,usub]
      omega
    have e2 : (trimLeft q r).length = r.base + r.length - q.endAddr := by
      simp only [trimLeft,usub]
      omega
    exact clear (by omega) (by omega) (by omega)
  · have e1 : (trimRight q r).base = r.base := rfl
    have e2 : (trimRight q r).length = q.base - r.base := by
      simp only [trimRight,usub]
      omega
    exact clear (by omega) (by omega) (by omega)
  · have e1 : (leftPart q r).base = r.base := rfl
    have e2 : (leftPart q r).length = q.base - r.base := usub_of_le (by omega) (by omega)
    exact clear (by omega) (by omega) (by omega)
  · have e1 : (splitPart q n r).base = q.endAddr := rfl
    have e2 : (splitPart q n r).length = r.endAddr - q.endAddr :=
      usub_of_le (uadd_lt _ _) (by omega)
    exact clear (by omega) (by omega) (by omega)

theorem Bounded.keep (h : Bounded b l n) (hr : r ∈ l) (flags : UInt64) :
    Bounded b (Keyed.store MappedRange.id l { r with pageFlags := flags }) n := by
  have hmem := Keyed.mem_store_iff (y := { r with pageFlags := flags }) h.ids hr rfl
  have hk := h.each r hr
  refine ⟨by rw [Keyed.map_key_store]; exact h.ids,?_,?_⟩
  · intro x hx
    rcases (hmem x).mp hx with rfl | ⟨hx,_⟩
    · exact h.fresh r hr
    · exact h.fresh x hx
  · intro x hx
    rcases (hmem x).mp hx with rfl | ⟨hx,_⟩
    · exact ⟨hk.nonempty,hk.below,hk.typed⟩
    · exact h.each x hx

theorem Bounded.replace {m : List MappedRange} (hb : b < 2 ^ 64) (h : Bounded b (r :: m) n) :
    Bounded b (pieces q n r ++ m) (if Splits q r then n + 1 else n) := by
  obtain ⟨h1,h2⟩ := pieces_nodup (q := q) h.ids h.fresh
  refine ⟨h1,h2,fun x hx => ?_⟩
  rcases List.mem_append.mp hx with hx | hx
  · exact (below_pieces hb (h.each r (by simp)) hx).1
  · exact h.each x (by simp [hx])

structure Cleared (b : Nat) (q : Request) (s : Surgery) : Prop where
  bounded : Bounded b s.rangeList s.nextId
  clear : ∀ r ∈ s.rangeList, ¬ q.overlaps r

def FlowOk (b : Nat) (q : Request) : Flow → Prop
  | .ok s => Cleared b q s
  | .error out => Bounded b out.1.rangeList out.1.nextId ∧ q.keepPages = true

theorem exact_keeps {s : Surgery} {flow : Flow} (h : Bounded b s.rangeList s.nextId)
    (hr : r ∈ s.rangeList) (ho : q.overlaps r) (hx : Exact q r) (hf : resolveOne q r s = flow) :
    ∃ out, flow = .error out ∧ Bounded b out.1.rangeList out.1.nextId := by
  have hc : ¬ (q.base ≥ r.endAddr ∨ q.endAddr ≤ r.base) := by
    simp only [Request.overlaps] at ho; omega
  obtain ⟨k1,k2,k3,k4⟩ := hx
  have hx : q.keepPages = true ∧ q.base = r.base ∧ q.endAddr = r.endAddr ∧ q.type = r.type :=
    ⟨k1,k2,k3,k4⟩
  rw [resolveOne,if_neg hc,if_pos k2.le,if_pos k3.ge,if_pos hx] at hf
  split_ifs at hf
  · exact ⟨_,hf.symm,h.keep hr q.pageFlags⟩
  · exact ⟨_,hf.symm,h⟩

theorem overlapPass_bounded (hb : b < 2 ^ 64) (ids : List Nat) :
    ∀ s : Surgery, Bounded b s.rangeList s.nextId →
    (∀ r ∈ s.rangeList, r.id ∈ ids ∨ ¬ q.overlaps r) → FlowOk b q (overlapPass q ids s) := by
  induction ids with
  | nil => exact fun s h hd => ⟨h,fun r hr => (hd r hr).resolve_left (by simp)⟩
  | cons id ids ih =>
    intro s h hd
    simp only [overlapPass]
    cases hl : Keyed.lookup MappedRange.id s.rangeList id with
    | none =>
      refine ih s h fun r hr => ?_
      rcases hd r hr with hid | ho
      · rcases List.mem_cons.mp hid with rfl | hid
        · rw [Keyed.lookup_of_mem h.ids hr] at hl
          cases hl
        · exact .inl hid
      · exact .inr ho
    | some r =>
      obtain ⟨hr,rfl⟩ := Keyed.lookup_mem hl
      by_cases he : q.overlaps r ∧ Exact q r
      · obtain ⟨out,hout,hbound⟩ := exact_keeps h hr he.1 he.2 rfl
        simp only [hout]
        exact ⟨hbound,he.2.1⟩
      · have hp : s.rangeList.Perm (r :: s.rangeList.erase r) := List.perm_cons_erase hr
        obtain ⟨s1,h1,p1,a1⟩ := resolveOne_spec h.ids hp (h.each r hr).typed he
        have hb1 : Bounded b s1.rangeList s1.nextId := by
          rw [a1.nextId]
          exact ((h.perm hp.symm).replace hb).perm p1
        simp only [h1]
        refine ih s1 hb1 fun x hx => ?_
        rcases List.mem_append.mp (p1.mem_iff.mp hx) with hx | hx
        · exact .inr (below_pieces hb (h.each r hr) hx).2
        · have hxl := List.mem_of_mem_erase hx
          rcases hd x hxl with hid | ho
          · rcases List.mem_cons.mp hid with hid | hid
            · have hxr : x = r := Keyed.eq_of_key h.ids hxl hr hid
              have hn : s.rangeList.Nodup := h.ids.of_map
              exact absurd (hxr ▸ hx) (hn.not_mem_erase)
            · exact .inl hid
          · exact .inr ho

theorem resolve_bounded (hb : b < 2 ^ 64) (h : Bounded b l n) (hr : q.resolveOverlap = true) :
    LoopExits q 2 l n ∧ FlowOk b q (resolveOverlaps q 2 ⟨l,n,[],false,q.resolveOverlap⟩) := by
  have hpass := overlapPass_bounded (q := q) hb (l.map MappedRange.id) ⟨l,n,[],false,false⟩ h
    fun r hr => .inl (List.mem_map_of_mem hr)
  unfold LoopExits
  simp only [resolveOverlaps,hr,if_true]
  cases hp : overlapPass q (l.map MappedRange.id) ⟨l,n,[],false,false⟩ with
  | error out =>
    rw [hp] at hpass
    exact ⟨trivial,hpass⟩
  | ok s =>
    rw [hp] at hpass
    dsimp only
    split_ifs with hneed
    · rw [overlapPass_idle (s.rangeList.map MappedRange.id)
        { s with needToResolveOverlap := false } hpass.clear]
      exact ⟨rfl,⟨hpass.bounded,hpass.clear⟩⟩
    · exact ⟨by simpa using hneed,hpass⟩

def Request.Lands (b : Nat) (q : Request) : Prop :=
  q.type ≠ .none → 0 < q.length ∧ q.base + q.length ≤ b

theorem merged_below {e : MappedRange} (hb : b < 2 ^ 64) (hq : 0 < q.length ∧ q.base + q.length ≤ b)
    (he : Below b e) (hm : mergeable q e = true) :
    Below b (mergedRange q e) ∧
    ∀ virt, e.covers virt ∨ q.inside virt → (mergedRange q e).covers virt := by
  have h1 := he.endAddr_eq hb
  have h2 := he.below
  have h3 := he.nonempty
  have h4 : q.endAddr = q.base + q.length := uadd_of_lt (by omega)
  obtain ⟨_,_,hadj⟩ := mergeable_iff.mp hm
  have ht := (mergedRange_same q e).2.1
  have shape : (mergedRange q e).length = e.length + q.length ∧
      ((mergedRange q e).base = e.base ∧ q.base = e.base + e.length ∨
        (mergedRange q e).base = q.base ∧ e.base = q.base + q.length) := by
    have hlen : uadd e.length q.length = e.length + q.length := uadd_of_lt (by omega)
    unfold mergedRange
    split_ifs with hbase
    · exact ⟨hlen,.inl ⟨rfl,by omega⟩⟩
    · refine ⟨hlen,.inr ⟨?_,by omega⟩⟩
      change usub e.base q.length = _
      rw [usub_of_le (by omega) (by omega)]
      omega
  have hm : Below b (mergedRange q e) := ⟨by omega,by omega,ht ▸ he.typed⟩
  refine ⟨hm,fun v hv => ?_⟩
  have h5 := hm.endAddr_eq hb
  simp only [MappedRange.covers,Request.inside] at hv ⊢
  omega

def Covered (l : List MappedRange) (base length : Nat) : Prop :=
  ∀ virt, base ≤ virt → virt < base + length → ∃ r ∈ l, r.covers virt

theorem insertRange_bounded {s : Surgery} (hb : b < 2 ^ 64) (h : Bounded b s.rangeList s.nextId)
    (hq : q.Lands b) (overlap : Bool) :
    Bounded b (insertRange q overlap s).1.rangeList (insertRange q overlap s).1.nextId ∧
    (q.type ≠ .none → Covered (insertRange q overlap s).1.rangeList q.base q.length) ∧
    (q.type = .none → (insertRange q overlap s).1.rangeList = s.rangeList) := by
  unfold insertRange
  by_cases ht : q.type = .none
  · rw [if_pos ht]
    exact ⟨h,fun hne => absurd ht hne,fun _ => rfl⟩
  obtain ⟨hlen,hend⟩ := hq ht
  have hnew : Below b (rangeOf q s.nextId) := ⟨hlen,hend,ht⟩
  have hcons : Bounded b (rangeOf q s.nextId :: s.rangeList) (s.nextId + 1) := by
    refine ⟨List.nodup_cons.mpr ⟨fun hmem => ?_,h.ids⟩,?_,?_⟩
    · obtain ⟨x,hx,he⟩ := List.mem_map.mp hmem
      have hlt := h.fresh x hx
      change x.id = s.nextId at he
      omega
    · intro x hx
      rcases List.mem_cons.mp hx with rfl | hx
      · exact Nat.lt_succ_self _
      · exact Nat.lt_succ_of_lt (h.fresh x hx)
    · intro x hx
      rcases List.mem_cons.mp hx with rfl | hx
      · exact hnew
      · exact h.each x hx
  have hp := linkRange_perm s.rangeList (rangeOf q s.nextId)
  have hcov : Covered (linkRange s.rangeList (rangeOf q s.nextId)) q.base q.length :=
    fun v h1 h2 => ⟨rangeOf q s.nextId,hp.mem_iff.mpr (by simp),h1,
      by rw [hnew.endAddr_eq hb]; exact h2⟩
  rw [if_neg ht]
  split_ifs
  · exact ⟨hcons.perm hp,fun _ => hcov,fun h => absurd h ht⟩
  · exact ⟨hcons.perm hp,fun _ => hcov,fun h => absurd h ht⟩

theorem finishRange_bounded {s : Surgery} (hb : b < 2 ^ 64) (h : Bounded b s.rangeList s.nextId)
    (hq : q.Lands b) :
    Bounded b (finishRange q s).1.rangeList (finishRange q s).1.nextId ∧
    (q.type ≠ .none → Covered (finishRange q s).1.rangeList q.base q.length) ∧
    (q.type = .none → (finishRange q s).1.rangeList = s.rangeList) := by
  unfold finishRange
  split
  · rename_i s' hs
    split_ifs at hs with hm
    have ht : q.type ≠ .none := by simp [hm.2]
    simp only [mergeRange] at hs
    split at hs
    · simp at hs
    · rename_i e he
      have hmem := List.mem_of_find?_eq_some he
      have hmg : mergeable q e = true := List.find?_some he
      obtain ⟨hbelow,hcov⟩ := merged_below hb (hq ht) (h.each e hmem) hmg
      have hst := Keyed.mem_store_iff h.ids hmem (mergedRange_same q e).1
      have hlist : s'.rangeList = Keyed.store MappedRange.id s.rangeList (mergedRange q e) ∧
          s'.nextId = s.nextId := by
        simp only [Option.some.injEq] at hs
        subst hs
        split_ifs <;> exact ⟨rfl,rfl⟩
      obtain ⟨e1,e2⟩ := hlist
      refine ⟨?_,fun _ v h1 h2 => ?_,fun h => absurd h ht⟩
      · rw [e1,e2]
        refine ⟨by rw [Keyed.map_key_store]; exact h.ids,?_,?_⟩
        · intro x hx
          rcases (hst x).mp hx with rfl | ⟨hx,_⟩
          · rw [(mergedRange_same q e).1]; exact h.fresh e hmem
          · exact h.fresh x hx
        · intro x hx
          rcases (hst x).mp hx with rfl | ⟨hx,_⟩
          · exact hbelow
          · exact h.each x hx
      · rw [e1]
        exact ⟨_,(hst _).mpr (.inl rfl),hcov v (.inr ⟨h1,h2⟩)⟩
  · exact insertRange_bounded hb h hq s.hadOverlap

theorem addRange_bounded (hb : b < 2 ^ 64) (h : Bounded b l n) (hr : q.resolveOverlap = true)
    (hq : q.Lands b) :
    Bounded b (addRange q l n).1.rangeList (addRange q l n).1.nextId := by
  obtain ⟨_,hf⟩ := resolve_bounded (q := q) hb h hr
  unfold addRange addRangeFuel
  cases hres : resolveOverlaps q 2 ⟨l,n,[],false,q.resolveOverlap⟩ with
  | error out =>
    rw [hres] at hf
    exact hf.1
  | ok s =>
    rw [hres] at hf
    exact (finishRange_bounded hb hf.bounded hq).1

theorem addRange_unmaps (hb : b < 2 ^ 64) (h : Bounded b l n) (base length : Nat) :
    ∀ r ∈ (addRange (unmapRequest base length) l n).1.rangeList,
      ¬ (unmapRequest base length).overlaps r := by
  have hq : (unmapRequest base length).Lands b := fun ht => absurd rfl ht
  obtain ⟨_,hf⟩ := resolve_bounded (q := unmapRequest base length) hb h rfl
  unfold addRange addRangeFuel
  cases hres : resolveOverlaps (unmapRequest base length) 2
      ⟨l,n,[],false,(unmapRequest base length).resolveOverlap⟩ with
  | error out =>
    rw [hres] at hf
    exact absurd hf.2 (by simp [unmapRequest])
  | ok s =>
    rw [hres] at hf
    dsimp only
    rw [(finishRange_bounded hb hf.bounded hq).2.2 rfl]
    exact hf.clear

theorem addRange_covers (hb : b < 2 ^ 64) (h : Bounded b l n) (ht : q.type ≠ .none)
    (hq : q.Lands b) (hclear : ∀ r ∈ l, ¬ q.overlaps r) :
    Covered (addRange q l n).1.rangeList q.base q.length := by
  have hres : resolveOverlaps q 2 ⟨l,n,[],false,q.resolveOverlap⟩ = .ok ⟨l,n,[],false,false⟩ := by
    cases hr : q.resolveOverlap with
    | false => rfl
    | true =>
      simp only [resolveOverlaps,if_true,
        overlapPass_idle (l.map MappedRange.id) ⟨l,n,[],false,false⟩ hclear]
      rfl
  simp only [addRange,addRangeFuel,hres]
  exact (finishRange_bounded (s := ⟨l,n,[],false,false⟩) hb h hq).2.1 ht

structure Placed (sp : Space) : Prop where
  ranges : Bounded sp.mmapAnonBase sp.rangeList sp.nextId
  aligned : pageSize ∣ sp.mmapAnonBase
  fits : sp.mmapAnonBase < 2 ^ 64

def lastPage : Nat := 2 ^ 64 - pageSize

theorem pageSize_dvd_lastPage : pageSize ∣ lastPage := by decide

theorem alignUp_page {length : Nat} (h : length ≤ lastPage) :
    pageSize ∣ alignUp length pageSize ∧ length ≤ alignUp length pageSize ∧
    alignUp length pageSize ≤ lastPage := by
  have hl : lastPage < 2 ^ 64 := by decide
  exact ⟨(alignUp_of_dvd (by omega) (by decide)).1,alignUp_bounds h hl pageSize_dvd_lastPage⟩

theorem alignUp_past {length : Nat} (h : lastPage < length) (hw : length < 2 ^ 64) :
    alignUp length pageSize = 0 := by
  simp only [lastPage,pageSize] at h
  have hmod : length % pageSize ≠ 0 := by
    simp only [pageSize]
    omega
  have hdiv : length / pageSize = 2 ^ 52 - 1 := by
    simp only [pageSize]
    omega
  rw [alignUp,if_pos hmod,hdiv]
  rfl

namespace Call

def Places : Call → Prop
  | .mmap _ _ _ _ _ _ | .munmap _ _ | .brk _ => True
  | .mprotect _ _ _ | .madvise _ _ _ => False

def Words : Call → Prop
  | .mmap addr length _ _ _ _ | .munmap addr length | .mprotect addr length _
  | .madvise addr length _ => addr < 2 ^ 64 ∧ length < 2 ^ 64
  | .brk addr => addr < 2 ^ 64

end Call

theorem Placed.addRange {sp : Space} (h : Placed sp) {q : Request} (hr : q.resolveOverlap = true)
    (hq : q.Lands sp.mmapAnonBase) : Placed (sp.addRange q).space :=
  ⟨addRange_bounded h.fits h.ranges hr hq,h.aligned,h.fits⟩

namespace Space

def Refuses (prot flags : Nat) (fd : Option FileDescription) : Prop :=
  ∃ e, mmapRequest 0 0 prot flags 0 fd = .error e

def PlacesWell (sp : Space) : Call → Prop
  | .mmap addr length prot flags fd offset =>
      let out := sp.syscallMmap addr length prot flags fd offset
      (flagSet flags mapFixed = false → ∀ base, out.result = .ok base →
        pageSize ∣ base ∧ Covered out.space.rangeList base length ∧
        ∀ r ∈ sp.rangeList, ∀ virt, base ≤ virt → virt < base + length → ¬ r.covers virt) ∧
      (lastPage < length → ∃ e, out = ⟨sp,[],.error e⟩)
  | .munmap addr length => lastPage < length → ∃ e, sp.syscallMunmap addr length = ⟨sp,[],.error e⟩
  | _ => True

def Fits (sp : Space) : Call → Prop
  | .mmap addr length prot flags fd _ =>
      length = 0 ∨
      (length ≤ lastPage ∧ (if flagSet flags mapFixed then addr else sp.mmapAnonBase) +
        alignUp length pageSize ≤ lastPage) ∨
      (Refuses prot flags fd ∧ lastPage < length ∧
        (flagSet flags mapFixed = true → addr ≤ sp.mmapAnonBase))
  | .munmap addr length => ¬ pageSize ∣ addr ∨ length ≤ lastPage
  | .brk addr =>
      alignUp addr pageSize ≤ alignUp sp.brk pageSize ∨ alignUp addr pageSize ≤ sp.mmapAnonBase
  | _ => False

theorem mmapRequest_error {base size prot flags offset : Nat} {fd : Option FileDescription}
    {e : Errno} : mmapRequest base size prot flags offset fd = .error e ↔
      mmapRequest 0 0 prot flags 0 fd = .error e := by
  unfold mmapRequest
  split_ifs
  · simp
  · cases fd with
    | none => rfl
    | some fd =>
      simp only
      split_ifs
      · rfl
      · rfl
      · unfold FileDescription.mmap
        cases fd.vnode with
        | memfd address =>
          simp only
          split_ifs <;> simp
        | _ => simp

theorem placeMmap_same (sp : Space) (addr size flags : Nat) :
    (sp.placeMmap addr size flags).1.rangeList = sp.rangeList ∧
    (sp.placeMmap addr size flags).1.nextId = sp.nextId := by
  unfold placeMmap
  split_ifs <;> exact ⟨rfl,rfl⟩

theorem placeMmap_spec {sp : Space} (h : Placed sp) {addr size flags : Nat}
    (hs : pageSize ∣ size)
    (hfit : (if flagSet flags mapFixed then addr else sp.mmapAnonBase) + size ≤ lastPage) :
    Placed (sp.placeMmap addr size flags).1 ∧
    (sp.placeMmap addr size flags).2 + size ≤ (sp.placeMmap addr size flags).1.mmapAnonBase ∧
    (flagSet flags mapFixed = false → (sp.placeMmap addr size flags).2 = sp.mmapAnonBase) := by
  have hl : lastPage < 2 ^ 64 := by decide
  have hbase : sp.mmapAnonBase ≤ lastPage := by
    have h1 := h.fits
    have h2 := h.aligned
    simp only [lastPage,pageSize] at h2 ⊢
    omega
  unfold placeMmap
  split_ifs at hfit ⊢ with hf
  · have hsum : uadd addr size = addr + size := uadd_of_lt (by omega)
    have hmax : max sp.mmapAnonBase (uadd addr size) ≤ lastPage := by omega
    obtain ⟨a1,a2,a3⟩ := alignUp_page hmax
    refine ⟨⟨h.ranges.mono ?_,a1,?_⟩,?_,fun hn => absurd hf (by simp [hn])⟩
    · dsimp only
      omega
    · dsimp only
      omega
    · dsimp only
      omega
  · have hsum : uadd sp.mmapAnonBase size = sp.mmapAnonBase + size := uadd_of_lt (by omega)
    refine ⟨⟨h.ranges.mono ?_,?_,?_⟩,?_,fun _ => rfl⟩
    · dsimp only
      omega
    · dsimp only
      rw [hsum]
      exact Nat.dvd_add h.aligned hs
    · dsimp only
      omega
    · dsimp only
      omega

theorem placeMmap_zero {sp : Space} (h : Placed sp) {addr flags : Nat}
    (haddr : flagSet flags mapFixed = true → addr ≤ sp.mmapAnonBase) :
    (sp.placeMmap addr 0 flags).1 = sp := by
  have h1 := h.fits
  have h2 : sp.mmapAnonBase % pageSize = 0 := Nat.mod_eq_zero_of_dvd h.aligned
  unfold placeMmap
  split_ifs with hf
  · have hle := haddr hf
    have hsum : uadd addr 0 = addr := uadd_of_lt (by omega)
    simp only [hsum,Nat.max_eq_left hle,alignUp,h2,ne_eq,not_true_eq_false,if_false]
  · have hsum : uadd sp.mmapAnonBase 0 = sp.mmapAnonBase := uadd_of_lt (by omega)
    simp only [hsum]

theorem mmap_step {sp : Space} (h : Placed sp) (addr length prot flags : Nat)
    (fd : Option FileDescription) (offset : Nat) (hw : length < 2 ^ 64)
    (hf : sp.Fits (.mmap addr length prot flags fd offset)) :
    sp.PlacesWell (.mmap addr length prot flags fd offset) ∧
    Placed (sp.syscallMmap addr length prot flags fd offset).space := by
  have hl : lastPage < 2 ^ 64 := by decide
  simp only [PlacesWell]
  by_cases h0 : length = 0
  · subst h0
    simp only [syscallMmap,if_true]
    exact ⟨⟨fun _ base hb => (by cases hb),fun hp => absurd hp (by decide)⟩,h⟩
  obtain hz | ⟨hlen,hfit⟩ | ⟨⟨e,he⟩,hlen,haddr⟩ := hf
  · exact absurd hz h0
  · obtain ⟨a1,a2,a3⟩ := alignUp_page hlen
    obtain ⟨p1,p2,p3⟩ := placeMmap_spec h a1 hfit
    obtain ⟨s1,s2⟩ := sp.placeMmap_same addr (alignUp length pageSize) flags
    cases hm : mmapRequest (sp.placeMmap addr (alignUp length pageSize) flags).2
      (alignUp length pageSize) prot flags offset fd with
    | error e =>
      simp only [syscallMmap,if_neg h0,hm]
      exact ⟨⟨fun _ base hb => (by cases hb),fun hp => absurd hp (by omega)⟩,p1⟩
    | ok q =>
      obtain ⟨q1,q2,q3,q4,_,_⟩ := mmapRequest_resolves hm
      have hlands : q.Lands (sp.placeMmap addr (alignUp length pageSize) flags).1.mmapAnonBase := by
        intro _
        rw [q1,q2]
        exact ⟨by omega,p2⟩
      simp only [syscallMmap,if_neg h0,hm]
      refine ⟨⟨fun hn base hb => ?_,fun hp => absurd hp (by omega)⟩,p1.addRange q3 hlands⟩
      have hb : base = sp.mmapAnonBase := (Except.ok.inj hb).symm.trans (p3 hn)
      have hends (r : MappedRange) (hr : r ∈ sp.rangeList) : r.endAddr ≤ base := by
        have hbelow := h.ranges.each r hr
        rw [hbelow.endAddr_eq h.fits,hb]
        exact hbelow.below
      have hqb : q.base = base := by rw [q1,p3 hn,hb]
      refine ⟨hb ▸ h.aligned,?_,fun r hr v hv _ hc => ?_⟩
      · have hcov : Covered (Mem.addRange q
            (sp.placeMmap addr (alignUp length pageSize) flags).1.rangeList
            (sp.placeMmap addr (alignUp length pageSize) flags).1.nextId).1.rangeList
            q.base q.length := by
          refine addRange_covers p1.fits p1.ranges q4 hlands fun r hr ho => ?_
          have hend := hends r (s1 ▸ hr)
          have := ho.1
          omega
        intro v hv1 hv2
        exact hcov v (by omega) (by omega)
      · have hend := hends r hr
        have := hc.2
        omega
  · have hz := alignUp_past hlen hw
    have hm : mmapRequest (sp.placeMmap addr (alignUp length pageSize) flags).2
        (alignUp length pageSize) prot flags offset fd = .error e := mmapRequest_error.mpr he
    have hout : sp.syscallMmap addr length prot flags fd offset = ⟨sp,[],.error e⟩ := by
      simp only [syscallMmap,if_neg h0,hm]
      rw [hz,placeMmap_zero h haddr]
    rw [hout]
    exact ⟨⟨fun _ base hb => (by cases hb),fun _ => ⟨e,rfl⟩⟩,h⟩

theorem munmap_step {sp : Space} (h : Placed sp) (addr length : Nat) (hw : addr < 2 ^ 64)
    (hf : sp.Fits (.munmap addr length)) :
    sp.PlacesWell (.munmap addr length) ∧ Placed (sp.syscallMunmap addr length).space := by
  simp only [PlacesWell]
  by_cases ha : pageSize ∣ addr
  swap
  · have hout : sp.syscallMunmap addr length = ⟨sp,[],.error .einval⟩ := by
      rw [syscallMunmap,if_pos]
      exact fun hz => ha (Nat.dvd_of_mod_eq_zero hz)
    rw [hout]
    exact ⟨fun _ => ⟨_,rfl⟩,h⟩
  have hlen : length ≤ lastPage := (show _ ∨ _ from hf).resolve_left (not_not.mpr ha)
  obtain ⟨a1,a2,a3⟩ := alignUp_page hlen
  have hp : Placed (sp.addRange (unmapRequest addr (alignUp length pageSize))).space :=
    h.addRange rfl fun ht => absurd rfl ht
  have hclear := addRange_unmaps h.fits h.ranges addr (alignUp length pageSize)
  refine ⟨fun hp => absurd hp (by omega),?_⟩
  rw [syscallMunmap,if_neg (by simpa using Nat.mod_eq_zero_of_dvd ha)]
  dsimp only
  split_ifs with hb
  swap
  · exact hp
  refine ⟨?_,ha,hw⟩
  change sp.mmapAnonBase = _ at hb
  by_cases hwrap : addr + alignUp length pageSize < 2 ^ 64
  · -- the block just below the bump pointer is gone, so all that is left ends where it began
    rw [uadd_of_lt hwrap] at hb
    refine ⟨hp.ranges.ids,hp.ranges.fresh,fun r hr => ?_⟩
    have hr1 := hp.ranges.each r hr
    have h1 := hr1.endAddr_eq h.fits
    have h2 := hr1.nonempty
    have h3 : r.base + r.length ≤ sp.mmapAnonBase := hr1.below
    have h4 : (unmapRequest addr (alignUp length pageSize)).endAddr =
        addr + alignUp length pageSize := uadd_of_lt hwrap
    have hno := hclear r hr
    simp only [Request.overlaps,h4,h1] at hno
    change ¬ (addr < _ ∧ _) at hno
    have hle : r.base + r.length ≤ addr := by omega
    exact ⟨h2,hle,hr1.typed⟩
  · refine hp.ranges.mono ?_
    change sp.mmapAnonBase ≤ addr
    have hl : lastPage < 2 ^ 64 := by decide
    simp only [uadd] at hb
    omega

theorem brk_step {sp : Space} (h : Placed sp) (addr : Nat) (hw : addr < 2 ^ 64)
    (hf : sp.Fits (.brk addr)) : Placed (sp.syscallBrk addr).space := by
  have hnew : alignUp addr pageSize < 2 ^ 64 := by
    unfold alignUp
    split_ifs
    · exact Nat.mod_lt _ (by decide)
    · exact hw
  by_cases h0 : addr = 0
  · rw [syscallBrk,if_pos h0]
    exact h
  rw [syscallBrk,if_neg h0]
  dsimp only
  split_ifs with hg hs
  · have hsub : usub (alignUp addr pageSize) (alignUp sp.brk pageSize) =
        alignUp addr pageSize - alignUp sp.brk pageSize := usub_of_le hnew hg.le
    have hle : alignUp addr pageSize ≤ sp.mmapAnonBase :=
      (show _ ∨ _ from hf).resolve_left (Nat.not_le.mpr hg)
    have hp : Placed (sp.addRange (anonymousRequest (alignUp sp.brk pageSize)
        (usub (alignUp addr pageSize) (alignUp sp.brk pageSize))
        (mmapProtToPageFlags (1 ||| protWrite)) true)).space := by
      refine h.addRange rfl fun _ => ?_
      simp only [anonymousRequest,hsub]
      omega
    exact ⟨hp.ranges,hp.aligned,hp.fits⟩
  · have hp : Placed (sp.addRange (unmapRequest (alignUp addr pageSize)
        (usub (alignUp sp.brk pageSize) (alignUp addr pageSize)))).space :=
      h.addRange rfl fun ht => absurd rfl ht
    exact ⟨hp.ranges,hp.aligned,hp.fits⟩
  · exact ⟨h.ranges,h.aligned,h.fits⟩

def Step (kernel : List MappedRange) (sp : Space) (c : Call) (sp' : Space) : Prop :=
  c.Places ∧ c.Words ∧ (sp.syscall kernel c).1 = sp'

theorem place_step {kernel : List MappedRange} {sp sp' : Space} {c : Call} (h : Placed sp)
    (hs : Step kernel sp c sp') (hf : sp.Fits c) : sp.PlacesWell c ∧ Placed sp' := by
  obtain ⟨hp,hw,rfl⟩ := hs
  cases c with
  | mmap addr length prot flags fd offset => exact mmap_step h addr length prot flags fd offset hw.2 hf
  | munmap addr length => exact munmap_step h addr length hw.1 hf
  | brk addr => exact ⟨trivial,brk_step h addr hw hf⟩
  | mprotect => exact hp.elim
  | madvise => exact hp.elim

theorem mmap_placement (kernel : List MappedRange) (sp : Space) (calls : List Call)
    (h : Placed sp) (hf : Along (Step kernel) (fun sp c _ => sp.Fits c) sp calls) :
    Along (Step kernel) (fun sp c _ => sp.PlacesWell c) sp calls :=
  Along.of_safe (fun h hs hf => place_step h hs hf) h hf

end Space

def userMmapBase : Nat := 0x7f0000000000
def userStackSize : Nat := 8 * 1024 * 1024

-- the end of `execve`: the stack above the loaded image, and a guard above the stack
def Space.mapStack (sp : Space) : Space :=
  let sp := { sp with mmapAnonBase := userMmapBase }
  let sp := (sp.addRange (anonymousRequest sp.mmapAnonBase userStackSize
    (mmapProtToPageFlags (1 ||| protWrite)) true)).space
  { sp with mmapAnonBase := sp.mmapAnonBase + userStackSize + 0x10000 }

theorem mapStack_placed {sp : Space} (h : Bounded userMmapBase sp.rangeList sp.nextId) :
    Placed sp.mapStack := by
  have hlands : (anonymousRequest userMmapBase userStackSize
      (mmapProtToPageFlags (1 ||| protWrite)) true).Lands (userMmapBase + userStackSize + 0x10000) :=
    fun _ => by decide
  have hb : sp.mapStack.mmapAnonBase = userMmapBase + userStackSize + 0x10000 := rfl
  have hranges : Bounded (userMmapBase + userStackSize + 0x10000) sp.mapStack.rangeList
      sp.mapStack.nextId := addRange_bounded (by decide) (h.mono (by decide)) rfl hlands
  exact ⟨hb ▸ hranges,hb ▸ by decide,hb ▸ by decide⟩

def bareSpace : Space := ⟨[],0,none,0,0⟩

theorem mmap_placement_exec :
    bareSpace.mapStack.PlacesWell (.mmap 0 5000 3 34 none 0) :=
  (Space.mmap_placement [] bareSpace.mapStack [.mmap 0 5000 3 34 none 0]
    (mapStack_placed ⟨by decide,nofun,nofun⟩)
    fun _ _ => ⟨.inr (.inl (by decide)),trivial⟩) _
      ⟨trivial,⟨by decide,by decide⟩,rfl⟩ |>.1

theorem mmap_past_end : ¬ bareSpace.mapStack.PlacesWell (.mmap 0 (2 ^ 64 - 1) 3 34 none 0) := by
  rintro ⟨_,h⟩
  obtain ⟨e,he⟩ := h (by decide)
  have hr : (bareSpace.mapStack.syscallMmap 0 (2 ^ 64 - 1) 3 34 none 0).result =
    .ok (userMmapBase + userStackSize + 0x10000) := by rfl
  rw [he] at hr
  cases hr

end SabaOS.Mem
