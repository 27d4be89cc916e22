import Mathlib.Data.List.Nodup
import Mathlib.Data.Nat.Find
import SabaOS.Lib.Iterate
import SabaOS.Lib.Framing

namespace SabaOS.Dev.Usb

open SabaOS.Lib

def descriptorConfiguration : UInt8 := 0x02

def descriptorInterface : UInt8 := 0x04

def descriptorEndpoint : UInt8 := 0x05

def descriptorHid : UInt8 := 0x21

def descriptorHidReport : UInt8 := 0x22

-- A configuration descriptor as it was copied. `bytes` is the memory from its first byte on, and
-- `answers` says whether the device answers the request made at a HID descriptor.
structure Config where
  bytes : Nat → UInt8
  total : Nat
  fits : total ≤ 256
  answers : Nat → Bool

-- The two loops of the walk: `ptr` of the outer one, or of the one that skips an interface.
inductive Place where
  | outer (ptr : Nat)
  | skipping (ptr descLength : Nat)
deriving DecidableEq, Repr

def Place.ptr : Place → Nat
  | .outer ptr => ptr
  | .skipping ptr _ => ptr

namespace Config

section Model

variable (c : Config)

def len (p : Nat) : Nat := (c.bytes p).toNat

def type (p : Nat) : UInt8 := c.bytes (p + 1)

def supported (p : Nat) : Bool := c.bytes (p + 5) = 3 && (c.bytes (p + 7) = 2 || c.bytes (p + 7) = 1)

def skips (p : Nat) : Bool := c.type p = descriptorInterface && !c.supported p

def reportEntry (p : Nat) : Option Nat :=
  (List.range (c.bytes (p + 5)).toNat).find? fun i => c.bytes (p + 6 + 3 * i) = descriptorHidReport

def reportLength (p i : Nat) : Nat :=
  (c.bytes (p + 7 + 3 * i)).toNat ||| ((c.bytes (p + 8 + 3 * i)).toNat <<< 8)

def requests (p : Nat) : Bool := (c.reportEntry p).any fun i => c.reportLength p i ≤ 4096

def step : Place → Turn Place Unit
  | .outer ptr =>
    if ptr < c.total then
      if c.len ptr = 0 then .stop ()
      else if c.skips ptr then .again (.skipping (ptr + c.len ptr) (c.len ptr))
      else if c.type ptr = descriptorHid && c.requests ptr && !c.answers ptr then .stop ()
      else .again (.outer (ptr + c.len ptr))
    else .stop ()
  | .skipping ptr descLength =>
    if ptr < c.total && !(c.type ptr = descriptorInterface || c.len ptr = 0) then
      .again (.skipping (ptr + c.len ptr) descLength)
    else .again (.outer (ptr + descLength))

def start : Place := .outer (c.len 0)

def order : Place → Nat
  | .outer ptr => 2 * ptr + 1
  | .skipping ptr _ => 2 * ptr

def left : Place → Nat
  | .outer ptr => 2 * (c.total - ptr)
  | .skipping ptr _ => 2 * (c.total - ptr) + 1

def places : List Place := trace c.step (2 * c.total + 1) c.start

def walk : List Nat := c.places.filterMap fun
  | .outer ptr => if ptr < c.total then some ptr else none
  | .skipping _ _ => none

def hidEntries (p : Nat) : Nat := match c.reportEntry p with
  | some i => i + 1
  | none => (c.bytes (p + 5)).toNat

def reads : Place → List Nat
  | .outer ptr =>
    if ptr < c.total then
      [ptr,ptr + 1] ++
        if c.len ptr = 0 then []
        else (List.range (c.len ptr)).map (ptr + ·) ++
          if c.type ptr = descriptorInterface then [ptr + 2,ptr + 5,ptr + 6,ptr + 7]
          else if c.type ptr = descriptorEndpoint then [ptr + 2,ptr + 3,ptr + 4,ptr + 5,ptr + 6]
          else if c.type ptr = descriptorHid then (ptr + 5) :: (List.range (c.hidEntries ptr)).flatMap
            fun i => [ptr + 6 + 3 * i,ptr + 7 + 3 * i,ptr + 8 + 3 * i]
          else []
    else []
  | .skipping ptr _ => if ptr < c.total then [ptr + 1,ptr] else []

def needed (p : Nat) : Nat :=
  if c.len p = 0 then 2
  else max (max 2 (c.len p)) <|
    if c.type p = descriptorInterface then 8
    else if c.type p = descriptorEndpoint then 7
    else if c.type p = descriptorHid then 6 + 3 * c.hidEntries p
    else 0

def Fits : Place → Prop
  | .outer ptr => ptr < c.total → ptr + c.needed ptr ≤ c.total
  | .skipping ptr _ => ptr < c.total → ptr + 2 ≤ c.total

def At (p : Nat) : Prop := RecordAt c.len c.total p

structure WellFormed : Prop where
  configuration : 0 < c.total → c.type 0 = descriptorConfiguration
  lengths : ∀ p, c.At p → p < c.total → 2 ≤ c.len p
  whole : c.At c.total

structure Header (p : Nat) : Prop where
  here : c.At p
  inside : p < c.total
  interface : c.type p = descriptorInterface

structure Owner (p h : Nat) : Prop where
  header : c.Header h
  before : h ≤ p
  last : ∀ g, c.Header g → g ≤ p → g ≤ h

structure NextHeader (p q : Nat) : Prop where
  header : c.Header q
  after : p < q
  first : ∀ h, c.Header h → p < h → q ≤ h

structure Visited : Prop where
  once : ∀ p h, c.At p → p < c.total → c.Owner p h → c.supported h → c.walk.count p = 1
  only : ∀ p ∈ c.walk, c.At p ∧ (c.Header p ∨ ∀ h, c.Owner p h → c.supported h)

structure Walks : Prop where
  ends : ∃ r, Ends c.step c.start r
  visits : c.WellFormed → (∀ p, c.answers p) → c.Visited
  reads : ¬c.WellFormed → ∀ s ∈ c.places, ∀ k ∈ c.reads s, k < c.total

-- The length of the skipped interface's own descriptor, which is added a second time, leads over no
-- supported interface, and to an interface or the end.
structure Lands (p q : Nat) : Prop where
  passes : ∀ h, c.Header h → q ≤ h → h < q + c.len p → c.supported h = false
  onto : c.total ≤ q + c.len p ∨ c.Header (q + c.len p)

end Model

section Steps

variable {c : Config} {p q d : Nat} {s s' : Place}

theorem step_order (h : c.step s = .again s') : order s < order s' := by
  cases s with
  | outer p =>
    rw [step] at h
    split_ifs at h with hin hzero hskip hgive
    · cases h
      show 2 * p + 1 < 2 * (p + c.len p)
      omega
    · cases h
      show 2 * p + 1 < 2 * (p + c.len p) + 1
      omega
  | skipping q d =>
    rw [step] at h
    split_ifs at h with hgo
    · cases h
      simp only [Bool.and_eq_true,Bool.not_eq_true',Bool.or_eq_false_iff,decide_eq_true_eq,
        decide_eq_false_iff_not] at hgo
      obtain ⟨-,-,hlen⟩ := hgo
      show 2 * q < 2 * (q + c.len q)
      omega
    · cases h
      show 2 * q < 2 * (q + d) + 1
      omega

theorem step_left (h : c.step s = .again s') : c.left s' < c.left s := by
  cases s with
  | outer p =>
    rw [step] at h
    split_ifs at h with hin hzero hskip hgive
    · cases h
      show 2 * (c.total - (p + c.len p)) + 1 < 2 * (c.total - p)
      omega
    · cases h
      show 2 * (c.total - (p + c.len p)) < 2 * (c.total - p)
      omega
  | skipping q d =>
    rw [step] at h
    split_ifs at h with hgo
    · cases h
      simp only [Bool.and_eq_true,Bool.not_eq_true',Bool.or_eq_false_iff,decide_eq_true_eq,
        decide_eq_false_iff_not] at hgo
      obtain ⟨hin,-,hlen⟩ := hgo
      show 2 * (c.total - (q + c.len q)) + 1 < 2 * (c.total - q) + 1
      omega
    · cases h
      show 2 * (c.total - (q + d)) < 2 * (c.total - q) + 1
      omega

theorem ends (c : Config) : ∃ r, Ends c.step c.start r := by
  refine ends_of_measure (I := fun _ => True) c.left ?_ trivial
  intro s _
  cases hs : c.step s with
  | again s' => exact .inr ⟨s',rfl,trivial,step_left hs⟩
  | stop r => exact .inl ⟨r,rfl⟩
  | stuck =>
    refine absurd hs ?_
    cases s with
    | outer p =>
      rw [step]
      split_ifs <;> nofun
    | skipping q d =>
      rw [step]
      split_ifs <;> nofun

theorem mem_places : s ∈ c.places ↔ Visits c.step c.start s := by
  refine mem_trace_iff (fun _ _ => step_left) ?_
  show 2 * (c.total - c.len 0) < 2 * c.total + 1
  omega

theorem mem_walk : p ∈ c.walk ↔ p < c.total ∧ Visits c.step c.start (.outer p) := by
  rw [walk,List.mem_filterMap]
  constructor
  · rintro ⟨s,hs,hp⟩
    cases s with
    | outer p' =>
      simp only [Option.ite_none_right_eq_some,Option.some.injEq] at hp
      obtain ⟨hin,rfl⟩ := hp
      exact ⟨hin,mem_places.mp hs⟩
    | skipping q d => cases hp
  · rintro ⟨hin,hs⟩
    exact ⟨_,mem_places.mpr hs,if_pos hin⟩

theorem walk_nodup : c.walk.Nodup := by
  have hpair := (trace_pairwise (fun _ _ h => @step_order c _ _ h) (2 * c.total + 1) c.start).1
  have hnodup : c.places.Nodup := hpair.imp fun h heq => absurd (congrArg order heq) (Nat.ne_of_lt h)
  refine List.Nodup.filterMap ?_ hnodup
  rintro (p | ⟨q,d⟩) (p' | ⟨q',d'⟩) n hn hn'
  · simp only [Option.mem_def,Option.ite_none_right_eq_some,Option.some.injEq] at hn hn'
    rw [hn.2,hn'.2]
  · cases hn'
  · cases hn
  · cases hn

theorem walk_count (h : p ∈ c.walk) : c.walk.count p = 1 := List.count_eq_one_of_mem walk_nodup h

theorem visits_order (h : Visits c.step s s') : order s ≤ order s' := visits_le (fun _ _ => step_order) h

theorem step_skip (hin : p < c.total) (hlen : c.len p ≠ 0) (hs : c.skips p) :
    c.step (.outer p) = .again (.skipping (p + c.len p) (c.len p)) := by
  rw [step,if_pos hin,if_neg hlen,if_pos hs]

theorem step_on (hin : p < c.total) (hlen : c.len p ≠ 0) (hs : c.skips p = false)
    (hans : ∀ p, c.answers p) : c.step (.outer p) = .again (.outer (p + c.len p)) := by
  rw [step,if_pos hin,if_neg hlen,if_neg (by rw [hs]; nofun),if_neg (by simp [hans p])]

theorem step_skipping (hin : q < c.total) (htype : c.type q ≠ descriptorInterface)
    (hlen : c.len q ≠ 0) : c.step (.skipping q d) = .again (.skipping (q + c.len q) d) := by
  rw [step,if_pos (by simp [hin,htype,hlen])]

theorem step_skipped (h : c.total ≤ q ∨ c.type q = descriptorInterface) :
    c.step (.skipping q d) = .again (.outer (q + d)) := by
  rw [step,if_neg]
  rcases h with h | h
  · simp [Nat.not_lt.mpr h]
  · simp [h]

end Steps

section Reads

variable {c : Config} {p : Nat}

theorem forall_range_add {n b t : Nat} (hn : 0 < n) :
    (∀ k ∈ (List.range n).map (b + ·), k < t) ↔ b + n ≤ t := by
  simp only [List.mem_map,List.mem_range,forall_exists_index,and_imp,forall_apply_eq_imp_iff₂]
  constructor
  · intro h
    have := h (n - 1) (by omega)
    omega
  · intro h i hi
    omega

theorem forall_entries {n b t : Nat} :
    (∀ k ∈ (List.range n).flatMap (fun i => [b + 6 + 3 * i,b + 7 + 3 * i,b + 8 + 3 * i]), k < t) ↔
      (0 < n → b + 6 + 3 * n ≤ t) := by
  simp only [List.mem_flatMap,List.mem_range,forall_exists_index,and_imp,List.mem_cons,
    List.not_mem_nil,or_false]
  constructor
  · intro h hn
    have := h (b + 8 + 3 * (n - 1)) (n - 1) (by omega) (.inr (.inr rfl))
    omega
  · rintro h k i hi (rfl | rfl | rfl)
    · have := h (by omega)
      omega
    · have := h (by omega)
      omega
    · have := h (by omega)
      omega

theorem reads_iff (s : Place) : (∀ k ∈ c.reads s, k < c.total) ↔ c.Fits s := by
  cases s with
  | outer p =>
    rw [reads,Fits]
    split_ifs with hin hzero hinterface hendpoint hhid
    · rw [needed,if_pos hzero]
      simp [hin]
      omega
    · rw [needed,if_neg hzero,if_pos hinterface,List.forall_mem_append,List.forall_mem_append,
        forall_range_add (Nat.pos_of_ne_zero hzero)]
      simp [hin]
      omega
    · rw [needed,if_neg hzero,if_neg hinterface,if_pos hendpoint,List.forall_mem_append,
        List.forall_mem_append,forall_range_add (Nat.pos_of_ne_zero hzero)]
      simp [hin]
      omega
    · rw [needed,if_neg hzero,if_neg hinterface,if_neg hendpoint,if_pos hhid,
        List.forall_mem_append,List.forall_mem_append,forall_range_add (Nat.pos_of_ne_zero hzero),
        List.forall_mem_cons (l := List.flatMap _ _),forall_entries]
      simp [hin]
      omega
    · rw [needed,if_neg hzero,if_neg hinterface,if_neg hendpoint,if_neg hhid,
        List.forall_mem_append,List.forall_mem_append,forall_range_add (Nat.pos_of_ne_zero hzero)]
      simp [hin]
      omega
    · simp [hin]
  | skipping q d =>
    rw [reads,Fits]
    split_ifs with hin
    · simp [hin]
      omega
    · simp [hin]

end Reads

section Headers

variable {c : Config} {p q h r : Nat}

theorem Header.skips (hh : c.Header p) (hs : c.supported p = false) : c.skips p := by
  simp [Config.skips,hh.interface,hs]

theorem header_of_skips (hp : c.At p) (hin : p < c.total) (hs : c.skips p) :
    c.Header p ∧ c.supported p = false := by
  simp only [Config.skips,Bool.and_eq_true,decide_eq_true_eq,Bool.not_eq_true'] at hs
  exact ⟨⟨hp,hin,hs.1⟩,hs.2⟩

theorem Owner.self (hh : c.Header h) : c.Owner h h := ⟨hh,Nat.le_refl h,fun _ _ => id⟩

theorem exists_owner (hh : c.Header h) (hle : h ≤ r) : ∃ g, c.Owner r g := by
  classical
  exact ⟨Nat.findGreatest c.Header r,Nat.findGreatest_spec hle hh,Nat.findGreatest_le r,
    fun g hg hgr => Nat.le_findGreatest hgr hg⟩

theorem Owner.prev (hp : c.At p) (ho : c.Owner (p + c.len p) h) (hn : ¬c.Header (p + c.len p)) :
    c.Owner p h := by
  have hne : h ≠ p + c.len p := by
    rintro rfl
    exact hn ho.header
  have hlt : h < p + c.len p := Nat.lt_of_le_of_ne ho.before hne
  have hle : h ≤ p := by
    refine Nat.not_lt.mp fun hafter => ?_
    have := (record_disjoint hp ho.header.here hafter).2
    omega
  exact ⟨ho.header,hle,fun g hg hgp => ho.last g hg (Nat.le_trans hgp (Nat.le_add_right p _))⟩

theorem WellFormed.no_owner (hw : c.WellFormed) : ¬c.Owner 0 h := by
  intro ho
  obtain rfl : h = 0 := Nat.le_zero.mp ho.before
  have htype := ho.header.interface
  rw [hw.configuration ho.header.inside] at htype
  cases htype

theorem WellFormed.len_ne (hw : c.WellFormed) (hp : c.At p) (hin : p < c.total) : c.len p ≠ 0 := by
  have := hw.lengths p hp hin
  omega

end Headers

section Kept

variable {c : Config} {p q d h : Nat} {s s' : Place}

def Landing (c : Config) : Prop := ∀ p ∈ c.walk, c.skips p → ∀ q, c.NextHeader p q → c.Lands p q

def Good (c : Config) : Place → Prop
  | .outer p => c.total ≤ p ∨ c.At p ∧ (c.Header p ∨ ∀ h, c.Owner p h → c.supported h)
  | .skipping q d => c.At q ∧ ∃ p ∈ c.walk, c.skips p ∧ c.Header p ∧ d = c.len p ∧ p < q ∧
      ∀ h, c.Header h → p < h → q ≤ h

theorem good_next (hp : c.At p) (hin : p < c.total) (ho : ∀ h, c.Owner p h → c.supported h) :
    c.Good (.outer (p + c.len p)) := by
  refine .inr ⟨hp.next hin,or_iff_not_imp_left.mpr ?_⟩
  intro hn h hh
  exact ho h (hh.prev hp hn)

theorem good_start (hw : c.WellFormed) : c.Good c.start := by
  rcases Nat.eq_zero_or_pos c.total with h0 | hpos
  · left
    rw [h0]
    exact Nat.zero_le _
  · have hnext := good_next .zero hpos fun h ho => absurd ho hw.no_owner
    rwa [Nat.zero_add] at hnext

theorem good_step (hw : c.WellFormed) (hk : c.Landing) (hv : Visits c.step c.start s)
    (hg : c.Good s) (h : c.step s = .again s') : c.Good s' := by
  cases s with
  | outer p =>
    rw [step] at h
    split_ifs at h with hin hzero hskip hgive
    · obtain ⟨hp,-⟩ := hg.resolve_left (Nat.not_le.mpr hin)
      obtain ⟨hh,-⟩ := header_of_skips hp hin hskip
      cases h
      refine ⟨hp.next hin,p,mem_walk.mpr ⟨hin,hv⟩,hskip,hh,rfl,by omega,?_⟩
      intro g hg hafter
      exact (record_disjoint hp hg.here hafter).2
    · obtain ⟨hp,ho⟩ := hg.resolve_left (Nat.not_le.mpr hin)
      cases h
      refine good_next hp hin ?_
      rcases ho with hh | ho
      · intro g hg
        obtain rfl : g = p := Nat.le_antisymm hg.before (hg.last p hh (Nat.le_refl p))
        exact eq_true_of_ne_false fun hs => hskip (hh.skips hs)
      · exact ho
  | skipping q d =>
    obtain ⟨hq,p,hp,hskip,hh,rfl,hpq,hfirst⟩ := hg
    rw [step] at h
    split_ifs at h with hgo
    · simp only [Bool.and_eq_true,Bool.not_eq_true',Bool.or_eq_false_iff,decide_eq_true_eq,
        decide_eq_false_iff_not] at hgo
      obtain ⟨hin,htype,hlen⟩ := hgo
      cases h
      refine ⟨hq.next hin,p,hp,hskip,hh,rfl,by omega,?_⟩
      intro g hg hafter
      have hne : q ≠ g := by
        rintro rfl
        exact htype hg.interface
      exact (record_disjoint hq hg.here (Nat.lt_of_le_of_ne (hfirst g hg hafter) hne)).2
    · cases h
      rcases Nat.lt_or_ge q c.total with hin | hout
      · have htype : c.type q = descriptorInterface := by
          simpa [hin,hw.len_ne hq hin] using hgo
        have hlands := hk p hp hskip q ⟨⟨hq,hin,htype⟩,hpq,hfirst⟩
        rcases hlands.onto with hend | hon
        · exact .inl hend
        · exact .inr ⟨hon.here,.inl hon⟩
      · exact .inl (Nat.le_trans hout (Nat.le_add_right q _))

theorem good_visits (hw : c.WellFormed) (hk : c.Landing) (hv : Visits c.step c.start s) :
    c.Good s := by
  induction hv with
  | refl => exact good_start hw
  | tail hv hstep ih => exact good_step hw hk hv ih hstep

end Kept

section Coverage

variable {c : Config} {p q d h : Nat} {s : Place}

theorem step_toward (hw : c.WellFormed) (hk : c.Landing) (hans : ∀ p, c.answers p) (hd : c.At d)
    (hin : d < c.total) (ho : c.Owner d h) (hs : c.supported h) (hv : Visits c.step c.start s)
    (hle : s.ptr ≤ d) : s = .outer d ∨ ∃ s', c.step s = .again s' ∧ s'.ptr ≤ d := by
  have hg := good_visits hw hk hv
  cases s with
  | outer p =>
    rcases Nat.lt_or_eq_of_le hle with hlt | rfl
    · have hpin : p < c.total := Nat.lt_trans hlt hin
      obtain ⟨hp,-⟩ := hg.resolve_left (Nat.not_le.mpr hpin)
      have hnext := (record_disjoint hp hd hlt).2
      have hlen := hw.len_ne hp hpin
      right
      cases hskip : c.skips p with
      | true => exact ⟨_,step_skip hpin hlen hskip,hnext⟩
      | false => exact ⟨_,step_on hpin hlen hskip hans,hnext⟩
    · exact .inl rfl
  | skipping q k =>
    obtain ⟨hq,p,hp,hskip,hh,rfl,hpq,hfirst⟩ := hg
    have hqin : q < c.total := Nat.lt_of_le_of_lt hle hin
    have hlen := hw.len_ne hq hqin
    right
    by_cases htype : c.type q = descriptorInterface
    · refine ⟨_,step_skipped (.inr htype),?_⟩
      have hnext : c.NextHeader p q := ⟨⟨hq,hqin,htype⟩,hpq,hfirst⟩
      refine Nat.not_lt.mp fun hjump => ?_
      have hover := (hk p hp hskip q hnext).passes h ho.header (ho.last q hnext.header hle)
        (Nat.lt_of_le_of_lt ho.before hjump)
      rw [hs] at hover
      cases hover
    · refine ⟨_,step_skipping hqin htype hlen,?_⟩
      have hne : q ≠ d := by
        rintro rfl
        have hph : p ≤ h := ho.last p hh (Nat.le_of_lt hpq)
        rcases Nat.lt_or_eq_of_le hph with hlt | rfl
        · obtain rfl : h = q := Nat.le_antisymm ho.before (hfirst h ho.header hlt)
          exact htype ho.header.interface
        · rw [(header_of_skips hh.here hh.inside hskip).2] at hs
          cases hs
      exact (record_disjoint hq hd (Nat.lt_of_le_of_ne hle hne)).2

theorem walk_covers (hw : c.WellFormed) (hk : c.Landing) (hans : ∀ p, c.answers p) (hd : c.At d)
    (hin : d < c.total) (ho : c.Owner d h) (hs : c.supported h) : d ∈ c.walk := by
  have hpos : 0 < d := by
    refine Nat.pos_of_ne_zero ?_
    rintro rfl
    exact hw.no_owner ho
  have hstart : c.start.ptr ≤ d := by
    have hnext := (record_disjoint .zero hd hpos).2
    rwa [Nat.zero_add] at hnext
  have hreach : ∃ s, Visits c.step c.start s ∧ s = .outer d := by
    refine visits_of_measure (I := fun s => Visits c.step c.start s ∧ s.ptr ≤ d) c.left ?_
      ⟨.refl,hstart⟩
    rintro s ⟨hv,hle⟩
    rcases step_toward hw hk hans hd hin ho hs hv hle with rfl | ⟨s',hs',hle'⟩
    · exact .inl rfl
    · exact .inr ⟨s',hs',⟨hv.tail hs',hle'⟩,step_left hs'⟩
  obtain ⟨_,hv,rfl⟩ := hreach
  exact mem_walk.mpr ⟨hin,hv⟩

theorem visited_of_landing (hw : c.WellFormed) (hk : c.Landing) (hans : ∀ p, c.answers p) :
    c.Visited := by
  constructor
  · intro p h hp hin ho hs
    exact walk_count (walk_covers hw hk hans hp hin ho hs)
  · intro p hp
    obtain ⟨hin,hv⟩ := mem_walk.mp hp
    exact (good_visits hw hk hv).resolve_left (Nat.not_le.mpr hin)

end Coverage

section Landings

variable {c : Config} {p q d h : Nat}

theorem skipped_to (hw : c.WellFormed) (hp : c.At p) (hin : p < c.total) (hskip : c.skips p)
    (hn : c.NextHeader p q) : Visits c.step (.outer p) (.skipping q (c.len p)) := by
  have hlen := hw.len_ne hp hin
  have hreach : ∃ s, Visits c.step (.skipping (p + c.len p) (c.len p)) s ∧
      s = .skipping q (c.len p) := by
    refine visits_of_measure (I := fun s => ∃ r, s = .skipping r (c.len p) ∧ c.At r ∧ p < r ∧ r ≤ q)
      c.left ?_ ⟨p + c.len p,rfl,hp.next hin,by omega,(record_disjoint hp hn.header.here hn.after).2⟩
    rintro s ⟨r,rfl,hr,hpr,hrq⟩
    rcases Nat.lt_or_eq_of_le hrq with hlt | rfl
    · have hrin : r < c.total := Nat.lt_trans hlt hn.header.inside
      have htype : c.type r ≠ descriptorInterface := fun htype =>
        Nat.not_le.mpr hlt (hn.first r ⟨hr,hrin,htype⟩ hpr)
      have hstep := step_skipping (d := c.len p) hrin htype (hw.len_ne hr hrin)
      refine .inr ⟨_,hstep,⟨_,rfl,hr.next hrin,by omega,?_⟩,step_left hstep⟩
      exact (record_disjoint hr hn.header.here hlt).2
    · exact .inl rfl
  obtain ⟨_,hv,rfl⟩ := hreach
  exact .head (step_skip hin hlen hskip) hv

theorem landing_of_visited (hw : c.WellFormed) (hv : c.Visited) : c.Landing := by
  intro p hp hskip q hn
  obtain ⟨hin,hreach⟩ := mem_walk.mp hp
  have hq := hreach.trans (skipped_to hw (hv.only p hp).1 hin hskip hn)
  have hstep := step_skipped (d := c.len p) (.inr hn.header.interface)
  have hover : ∀ h, c.Header h → q ≤ h → h < q + c.len p → c.supported h = false := by
    intro h hh hle hlt
    refine eq_false_of_ne_true fun hs => ?_
    have hcount := hv.once h h hh.here hh.inside (.self hh) hs
    have hmem : h ∈ c.walk := List.count_pos_iff.mp (hcount ▸ Nat.one_pos)
    rcases visits_linear (mem_walk.mp hmem).2 hq with hback | hon
    · have horder := visits_order hback
      simp only [order] at horder
      omega
    · rcases visits_again hstep hon with heq | hon
      · cases heq
      · have horder := visits_order hon
        simp only [order] at horder
        omega
  refine ⟨hover,or_iff_not_imp_left.mpr fun hend => ?_⟩
  have hmem : q + c.len p ∈ c.walk := mem_walk.mpr ⟨Nat.not_le.mp hend,hq.tail hstep⟩
  rcases (hv.only _ hmem).2 with hh | ho
  · exact hh
  · obtain ⟨g,hg⟩ := exists_owner hn.header (Nat.le_add_right q (c.len p))
    rcases Nat.lt_or_eq_of_le hg.before with hlt | rfl
    · have hs := ho g hg
      rw [hover g hg.header (hg.last q hn.header (Nat.le_add_right q _)) hlt] at hs
      cases hs
    · exact hg.header

end Landings

section Main

variable (c : Config)

theorem walks_iff : c.Walks ↔
    (c.WellFormed → (∀ p, c.answers p) → ∀ p, .outer p ∈ c.places → p < c.total → c.skips p →
      ∀ q, c.NextHeader p q → c.Lands p q) ∧ (¬c.WellFormed → ∀ s ∈ c.places, c.Fits s) := by
  constructor
  · intro h
    constructor
    · intro hw hans p hp hin
      exact landing_of_visited hw (h.visits hw hans) p (mem_walk.mpr ⟨hin,mem_places.mp hp⟩)
    · intro hw s hs
      exact (reads_iff s).mp (h.reads hw s hs)
  · rintro ⟨hland,hfits⟩
    refine ⟨ends c,?_,?_⟩
    · intro hw hans
      refine visited_of_landing hw ?_ hans
      intro p hp
      obtain ⟨hin,hv⟩ := mem_walk.mp hp
      exact hland hw hans p (mem_places.mpr hv) hin
    · intro hw s hs
      exact (reads_iff s).mpr (hfits hw s hs)

end Main

section Storage

def storageAndKeyboard : Config where
  bytes k := [9,2,27,0,2,1,0,0x80,50,9,4,0,0,0,8,6,0x50,0,9,4,1,0,0,3,1,1,0].getD k 0
  total := 27
  fits := by decide
  answers _ := true

theorem storage_at {p : Nat} (h : storageAndKeyboard.At p) : p = 0 ∨ p = 9 ∨ p = 18 ∨ p = 27 := by
  induction h with
  | refl => exact .inl rfl
  | tail _ hnext ih =>
    obtain ⟨hin,rfl⟩ := hnext
    rcases ih with rfl | rfl | rfl | rfl
    · exact .inr (.inl rfl)
    · exact .inr (.inr (.inl rfl))
    · exact .inr (.inr (.inr rfl))
    · exact absurd hin (Nat.lt_irrefl 27)

theorem storage_wellFormed : storageAndKeyboard.WellFormed := by
  have h9 : storageAndKeyboard.At 9 := RecordAt.next .zero (by decide)
  have h18 : storageAndKeyboard.At 18 := RecordAt.next h9 (by decide)
  refine ⟨fun _ => rfl,?_,RecordAt.next h18 (by decide)⟩
  intro p hp hin
  rcases storage_at hp with rfl | rfl | rfl | rfl
  · decide
  · decide
  · decide
  · exact absurd hin (Nat.lt_irrefl 27)

theorem keyboard_not_visited : ¬storageAndKeyboard.Walks := by
  intro h
  have h9 : storageAndKeyboard.At 9 := RecordAt.next .zero (by decide)
  have h18 : storageAndKeyboard.Header 18 := ⟨RecordAt.next h9 (by decide),by decide,rfl⟩
  have hv := h.visits storage_wellFormed fun _ => rfl
  have hcount := hv.once 18 18 h18.here h18.inside (.self h18) rfl
  have hwalk : storageAndKeyboard.walk.count 18 = 0 := by decide
  rw [hwalk] at hcount
  cases hcount

end Storage

end Config

end SabaOS.Dev.Usb
