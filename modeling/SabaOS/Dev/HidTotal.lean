import SabaOS.Dev.UsbHid
import SabaOS.Mem.BumpHeap

namespace SabaOS.Dev.Hid

open SabaOS.Lib SabaOS.Mem

def usageBytes : Nat := 4

def inputItemBytes : Nat := 24

-- The loop of `reserve_internal`
def doubled : Nat → Nat → Nat → Nat
  | 0,cap,_ => cap
  | fuel + 1,cap,newCap => if cap < newCap then doubled fuel (cap * 2) newCap else cap

def reserve (bytes newCap capacity : Nat) (heap : Bump) : Option (Bump × Nat) :=
  if newCap ≤ capacity then some (heap,capacity)
  else
    let cap := doubled newCap (if capacity = 0 then 1 else capacity) newCap
    (heap.allocate (bytes * cap) Bump.defaultAlignment).map fun r => (r.1,cap)

def pushMany (bytes : Nat) : Nat → Nat → Bump × Nat → Option (Bump × Nat)
  | 0,_,v => some v
  | count + 1,size,v => (reserve bytes (size + 1) v.2 v.1).bind (pushMany bytes count (size + 1))

structure Storage where
  heap : Bump
  usages : Nat
  items : Nat

namespace Storage

def grow (s : Storage) (old new : Nat × Nat) : Option Storage :=
  (pushMany usageBytes (new.1 - old.1) old.1 (s.heap,s.usages)).bind fun u =>
    (pushMany inputItemBytes (new.2 - old.2) old.2 (u.1,s.items)).map fun v => ⟨v.1,u.2,v.2⟩

def growAll : Nat × Nat → List (Nat × Nat) → Storage → Option Storage
  | _,[],s => some s
  | old,new :: rest,s => (s.grow old new).bind (growAll new rest)

end Storage

def Parser.sizes (p : Parser) : Nat × Nat := (p.usages.length,p.inputItems.length)

-- A failed `ASSERT` of the heap ends the run.
def storedStep (table : KeycodeTable) (data : Nat → UInt8) (length : UInt16) (c : Parser × Storage) :
    Turn (Parser × Storage) ((Bool × List InputItem) × Storage) :=
  if c.1.i < length then
    let p := c.1.item table data length
    match c.2.grow c.1.sizes p.sizes with
    | some s => .again (p,s)
    | none => .stuck
  else .stop (c.1.finish,c.2)

def itemSize (item : UInt8) : UInt8 := if item &&& 3 = 3 then 4 else item &&& 3

def itemReads (data : Nat → UInt8) (length i : UInt16) : List Nat :=
  i.toNat :: ((List.range (itemSize (data i.toNat)).toNat).takeWhile fun offset =>
    i.toNat + offset < length.toNat).map fun offset => i.toNat + offset + 1

structure Bitmaps where
  ev : UInt16 → Bool := fun _ => false
  key : UInt16 → Bool := fun _ => false
  rel : UInt16 → Bool := fun _ => false

namespace Bitmaps

def setEv (b : Bitmaps) (index : UInt16) : Bitmaps := { b with ev := Function.update b.ev index true }

def setKey (b : Bitmaps) (index : UInt16) : Bitmaps := { b with key := Function.update b.key index true }

def setRel (b : Bitmaps) (index : UInt16) : Bitmaps := { b with rel := Function.update b.rel index true }

end Bitmaps

def usageStep (table : KeycodeTable) (usageMax : UInt32) (c : UInt32 × Bitmaps) :
    Turn (UInt32 × Bitmaps) Bitmaps :=
  if c.1 ≤ usageMax then
    .again (c.1 + 1,if page c.1 = keyboardPage then c.2.setKey (table.keycode c.1) else c.2)
  else .stop c.2

def bitmapItem (table : KeycodeTable) (fuel : Nat) (item : InputItem) (b : Bitmaps) : Option Bitmaps :=
  if item.isArray then run (usageStep table item.usageMax) fuel (item.usageMin,b)
  else if item.type = 0 then some b
  else if item.type = evKey then some ((b.setEv item.type).setKey item.code)
  else if item.type = evRel then some ((b.setEv item.type).setRel item.code)
  else none

def fillBitmaps (table : KeycodeTable) (fuel : Nat) : List InputItem → Bitmaps → Option Bitmaps
  | [],b => some b
  | item :: items,b => (bitmapItem table fuel item b).bind (fillBitmaps table fuel items)

structure Parsed where
  reportProtocolUsable : Bool
  inputItems : List InputItem
  capacity : Nat
  bitmaps : Bitmaps

-- `old` and `capacity` are what the device has of items before, `heap` is the kernel's heap.
def opening (old : List InputItem) (capacity : Nat) (heap : Bump) : Parser × Storage :=
  ({ inputItems := old },⟨heap,0,capacity⟩)

def parse (table : KeycodeTable) (data : Nat → UInt8) (length : UInt16) (old : List InputItem)
    (capacity : Nat) (heap : Bump) (b : Bitmaps) (fuel : Nat) : Option Parsed :=
  (run (storedStep table data length) fuel (opening old capacity heap)).bind fun r =>
    if r.1.1 then (fillBitmaps table fuel r.1.2 b).map (⟨r.1.1,r.1.2,r.2.items,·⟩)
    else some ⟨r.1.1,r.1.2,r.2.items,b⟩

-- The items that a device can have before: its descriptors are parsed one after another.
inductive Earlier (table : KeycodeTable) : List InputItem → Nat → Prop where
  | first : Earlier table [] 0
  | parsed {old : List InputItem} {capacity : Nat} {data : Nat → UInt8} {length : UInt16} {heap : Bump}
      {b : Bitmaps} {fuel : Nat} {r : Parsed} (h : Earlier table old capacity)
      (hr : parse table data length old capacity heap b fuel = some r) :
      Earlier table r.inputItems r.capacity

structure ParseTotal (table : KeycodeTable) (data : Nat → UInt8) (length : UInt16)
    (old : List InputItem) (capacity : Nat) (heap : Bump) (b : Bitmaps) : Prop where
  ends : ∃ fuel r, parse table data length old capacity heap b fuel = some r
  reads : ∀ c, Visits (storedStep table data length) (opening old capacity heap) c → c.1.i < length →
    ∀ k ∈ itemReads data length c.1.i, k < length.toNat

inductive Header (data : Nat → UInt8) (length : Nat) : Nat → Prop where
  | first : Header data length 0
  | next {i : Nat} (h : Header data length i) (hi : i < length) :
      Header data length (i + (itemSize (data i)).toNat + 1)

def Whole (data : Nat → UInt8) (length : Nat) : Prop :=
  ∀ i, Header data length i → i < length → i + (itemSize (data i)).toNat < length

def declared (table : KeycodeTable) (data : Nat → UInt8) (length : UInt16) : Nat → Parser → List (Nat × Nat)
  | 0,_ => []
  | n + 1,p =>
    if p.i < length then
      let q := p.item table data length
      q.sizes :: declared table data length n q
    else []

def Roomy (table : KeycodeTable) (data : Nat → UInt8) (length : UInt16) (old : List InputItem)
    (capacity : Nat) (heap : Bump) : Prop :=
  (Storage.growAll (0,old.length) (declared table data length length.toNat { inputItems := old })
    ⟨heap,0,capacity⟩).isSome

def Bounded (table : KeycodeTable) (data : Nat → UInt8) (length : UInt16) (old : List InputItem) : Prop :=
  ∀ items, Accepts table data length old items →
    ∀ item ∈ items, item.isArray → item.usageMax ≠ 0xffffffff

namespace InputItem

def Typed (item : InputItem) : Prop := item.type = 0 ∨ item.type = evKey ∨ item.type = evRel

end InputItem

section Items

variable {table : KeycodeTable} {data : Nat → UInt8} {length i : UInt16} {p : Parser}
  {c c' : Parser × Storage} {r : (Bool × List InputItem) × Storage} {old : List InputItem}
  {capacity : Nat} {heap : Bump}

theorem mem_takeWhile_range' {s n m k base : Nat} :
    k ∈ (List.range' s n).takeWhile (fun offset => base + offset < m) ↔
      s ≤ k ∧ k < s + n ∧ base + k < m := by
  induction n generalizing s with
  | zero =>
    rw [List.range'_zero,List.takeWhile_nil]
    simp only [List.not_mem_nil,false_iff]
    omega
  | succ n ih =>
    rw [List.range'_succ,List.takeWhile_cons]
    split_ifs with hs
    · rw [List.mem_cons,ih]
      simp only [decide_eq_true_eq] at hs
      constructor
      · rintro (rfl | ⟨hle,hlt,hin⟩)
        · exact ⟨le_rfl,by omega,hs⟩
        · exact ⟨by omega,by omega,hin⟩
      · rintro ⟨hle,hlt,hin⟩
        rcases Nat.eq_or_lt_of_le hle with rfl | hlt'
        · exact .inl rfl
        · exact .inr ⟨hlt',by omega,hin⟩
    · simp only [decide_eq_true_eq] at hs
      simp only [List.not_mem_nil,false_iff]
      omega

theorem itemReads_iff (hi : i < length) : (∀ k ∈ itemReads data length i, k < length.toNat) ↔
    i.toNat + (itemSize (data i.toNat)).toNat < length.toNat := by
  have hlt := UInt16.lt_iff_toNat_lt.mp hi
  constructor
  · intro h
    refine Nat.not_le.mp fun hle => ?_
    have hread : length.toNat ∈ itemReads data length i := by
      refine List.mem_cons_of_mem _ (List.mem_map.mpr ⟨length.toNat - 1 - i.toNat,?_,by omega⟩)
      rw [List.range_eq_range',mem_takeWhile_range']
      omega
    exact absurd (h _ hread) (Nat.lt_irrefl _)
  · intro h k hk
    rcases List.mem_cons.mp hk with rfl | hk
    · exact hlt
    · obtain ⟨offset,hmem,rfl⟩ := List.mem_map.mp hk
      rw [List.range_eq_range',mem_takeWhile_range'] at hmem
      omega

theorem pushVariables_i {n : Nat} {k : UInt32} : (Parser.pushVariables table n k p).i = p.i := by
  induction n generalizing k p with
  | zero => rfl
  | succ n ih =>
    rw [Parser.pushVariables]
    cases p.usageOf k with
    | none => rfl
    | some usage => exact ih

theorem dispatch_i {itemType itemTag size : UInt8} {n : UInt32} :
    (p.dispatch table itemType itemTag size n).i = p.i := by
  unfold Parser.dispatch
  split_ifs
  · unfold Parser.mainItem Parser.input
    dsimp only
    split_ifs
    · rfl
    · rfl
    · exact pushVariables_i
    · rfl
  · unfold Parser.globalItem
    split_ifs <;> rfl
  · unfold Parser.localItem
    dsimp only
    split_ifs <;> rfl
  · rfl

theorem item_i : (p.item table data length).i = p.i + (itemSize (data p.i.toNat)).toUInt16 + 1 := by
  unfold Parser.item itemSize
  dsimp only
  rw [dispatch_i]

theorem item_next (h : p.i.toNat + (itemSize (data p.i.toNat)).toNat < length.toNat) :
    (p.item table data length).i.toNat = p.i.toNat + (itemSize (data p.i.toNat)).toNat + 1 := by
  have hlt := length.toNat_lt
  rw [item_i,UInt16.toNat_add,UInt16.toNat_add,UInt8.toNat_toUInt16]
  show ((p.i.toNat + (itemSize (data p.i.toNat)).toNat) % 65536 + 1) % 65536 = _
  omega

theorem storedStep_again {s : Storage} (hi : c.1.i < length)
    (hs : c.2.grow c.1.sizes (c.1.item table data length).sizes = some s) :
    storedStep table data length c = .again (c.1.item table data length,s) := by
  rw [storedStep,if_pos hi]
  dsimp only
  rw [hs]

theorem storedStep_refused (hi : c.1.i < length)
    (hs : c.2.grow c.1.sizes (c.1.item table data length).sizes = none) :
    storedStep table data length c = .stuck := by
  rw [storedStep,if_pos hi]
  dsimp only
  rw [hs]

theorem storedStep_next (h : storedStep table data length c = .again c') :
    c.1.i < length ∧ c'.1 = c.1.item table data length := by
  by_cases hi : c.1.i < length
  · cases hs : c.2.grow c.1.sizes (c.1.item table data length).sizes with
    | none => cases (storedStep_refused hi hs).symm.trans h
    | some s =>
      cases (storedStep_again hi hs).symm.trans h
      exact ⟨hi,rfl⟩
  · cases (if_neg hi).symm.trans h

theorem Ends.granted (h : Ends (storedStep table data length) c r) (hi : c.1.i < length) :
    ∃ s, c.2.grow c.1.sizes (c.1.item table data length).sizes = some s ∧
      Ends (storedStep table data length) (c.1.item table data length,s) r := by
  cases hs : c.2.grow c.1.sizes (c.1.item table data length).sizes with
  | none => exact absurd h (not_ends_stuck (storedStep_refused hi hs))
  | some s => exact ⟨s,rfl,(ends_again (storedStep_again hi hs)).mp h⟩

theorem run_parses {n : Nat} (h : run (storedStep table data length) n c = some r) :
    run (parseStep table data length) n c.1 = some r.1 := by
  induction n generalizing c with
  | zero => cases h
  | succ n ih =>
    rw [run] at h ⊢
    by_cases hi : c.1.i < length
    · rw [show parseStep table data length c.1 = _ from if_pos hi]
      cases hs : c.2.grow c.1.sizes (c.1.item table data length).sizes with
      | none =>
        rw [storedStep_refused hi hs] at h
        cases h
      | some s =>
        rw [storedStep_again hi hs] at h
        exact ih h
    · rw [show storedStep table data length c = _ from if_neg hi] at h
      rw [show parseStep table data length c.1 = _ from if_neg hi]
      cases h
      rfl

theorem ends_grows (h : Ends (storedStep table data length) c r) (n : Nat) :
    (c.2.growAll c.1.sizes (declared table data length n c.1)).isSome := by
  induction n generalizing c with
  | zero => rfl
  | succ n ih =>
    rw [declared]
    by_cases hi : c.1.i < length
    · obtain ⟨s,hs,hrest⟩ := Ends.granted h hi
      rw [if_pos hi,Storage.growAll,hs]
      exact ih hrest
    · rw [if_neg hi]
      rfl

theorem grows_ends (hw : Whole data length.toNat) {n : Nat} (hc : Header data length.toNat c.1.i.toNat)
    (hn : length.toNat - c.1.i.toNat ≤ n)
    (h : (c.2.growAll c.1.sizes (declared table data length n c.1)).isSome) :
    ∃ r, Ends (storedStep table data length) c r := by
  induction n generalizing c with
  | zero =>
    have hi : ¬c.1.i < length := by
      rw [UInt16.lt_iff_toNat_lt]
      omega
    exact ⟨_,.stop (if_neg hi)⟩
  | succ n ih =>
    by_cases hi : c.1.i < length
    · have hlt := UInt16.lt_iff_toNat_lt.mp hi
      have hnext := @item_next table _ _ _ (hw _ hc hlt)
      rw [declared,if_pos hi,Storage.growAll] at h
      cases hs : c.2.grow c.1.sizes (c.1.item table data length).sizes with
      | none =>
        rw [hs] at h
        cases h
      | some s =>
        rw [hs] at h
        obtain ⟨r,hr⟩ := ih (c := (c.1.item table data length,s)) (hnext ▸ .next hc hlt)
          (by dsimp only; omega) h
        exact ⟨r,(ends_again (storedStep_again hi hs)).mpr hr⟩
    · exact ⟨_,.stop (if_neg hi)⟩

theorem visits_header (hw : Whole data length.toNat)
    (hc : Visits (storedStep table data length) (opening old capacity heap) c) :
    Header data length.toNat c.1.i.toNat := by
  induction hc with
  | refl => exact .first
  | tail _ hstep ih =>
    obtain ⟨hi,hnext⟩ := storedStep_next hstep
    have hlt := UInt16.lt_iff_toNat_lt.mp hi
    rw [hnext,item_next (hw _ ih hlt)]
    exact .next ih hlt

theorem header_visits (hends : Ends (storedStep table data length) (opening old capacity heap) r)
    (hreads : ∀ c, Visits (storedStep table data length) (opening old capacity heap) c →
      c.1.i < length → ∀ k ∈ itemReads data length c.1.i, k < length.toNat) {j : Nat}
    (hj : Header data length.toNat j) :
    ∃ c, Visits (storedStep table data length) (opening old capacity heap) c ∧ c.1.i.toNat = j := by
  induction hj with
  | first => exact ⟨_,.refl,rfl⟩
  | next _ hlt ih =>
    obtain ⟨c,hc,rfl⟩ := ih
    have hi := UInt16.lt_iff_toNat_lt.mpr hlt
    have hfits := (itemReads_iff hi).mp (hreads c hc hi)
    obtain ⟨s,hs,-⟩ := Ends.granted ((ends_visits hc).mp hends) hi
    exact ⟨_,.tail hc (storedStep_again hi hs),item_next hfits⟩

theorem whole_of_reads (hends : Ends (storedStep table data length) (opening old capacity heap) r)
    (hreads : ∀ c, Visits (storedStep table data length) (opening old capacity heap) c →
      c.1.i < length → ∀ k ∈ itemReads data length c.1.i, k < length.toNat) :
    Whole data length.toNat := by
  intro j hj hlt
  obtain ⟨c,hc,rfl⟩ := header_visits hends hreads hj
  have hi := UInt16.lt_iff_toNat_lt.mpr hlt
  exact (itemReads_iff hi).mp (hreads c hc hi)

theorem reads_of_whole (hw : Whole data length.toNat)
    (hc : Visits (storedStep table data length) (opening old capacity heap) c) (hi : c.1.i < length) :
    ∀ k ∈ itemReads data length c.1.i, k < length.toNat :=
  (itemReads_iff hi).mpr (hw _ (visits_header hw hc) (UInt16.lt_iff_toNat_lt.mp hi))

end Items

section Usages

variable {table : KeycodeTable} {usageMax : UInt32} {items : List InputItem} {item : InputItem}

theorem usages_endless (fuel : Nat) (c : UInt32 × Bitmaps) :
    run (usageStep table 0xffffffff) fuel c = none := by
  refine run_none_of_again (I := fun _ => True) ?_ fuel trivial
  intro c _
  have hle : c.1 ≤ 0xffffffff := by
    have hlt := c.1.toNat_lt
    rw [UInt32.le_iff_toNat_le,show (0xffffffff : UInt32).toNat = 4294967295 from rfl]
    omega
  exact ⟨_,if_pos hle,trivial⟩

theorem usages_end (hmax : usageMax ≠ 0xffffffff) (c : UInt32 × Bitmaps) :
    ∃ b, Ends (usageStep table usageMax) c b := by
  have hlt : usageMax.toNat < 4294967295 := by
    have hlt := usageMax.toNat_lt
    have hne : usageMax.toNat ≠ 4294967295 := fun h => hmax (UInt32.toNat_inj.mp h)
    omega
  refine ends_of_measure (I := fun _ => True) (fun c => usageMax.toNat + 1 - c.1.toNat) ?_ trivial
  intro c _
  by_cases hle : c.1 ≤ usageMax
  · have hnat := UInt32.le_iff_toNat_le.mp hle
    have hnext : (c.1 + 1).toNat = c.1.toNat + 1 := by
      rw [UInt32.toNat_add]
      exact Nat.mod_eq_of_lt (show c.1.toNat + 1 < 4294967296 by omega)
    refine .inr ⟨_,if_pos hle,trivial,?_⟩
    dsimp only
    omega
  · exact .inl ⟨_,if_neg hle⟩

theorem bitmapItem_bounded {fuel : Nat} {b b' : Bitmaps} (h : bitmapItem table fuel item b = some b')
    (ha : item.isArray) : item.usageMax ≠ 0xffffffff := by
  intro hmax
  rw [bitmapItem,if_pos ha,hmax,usages_endless] at h
  cases h

theorem bitmapItem_ends (htyped : item.Typed) (hmax : item.isArray → item.usageMax ≠ 0xffffffff)
    (b : Bitmaps) : ∃ fuel b', ∀ m ≥ fuel, bitmapItem table m item b = some b' := by
  unfold bitmapItem
  cases ha : item.isArray with
  | true =>
    obtain ⟨b',fuel,hrun⟩ := @usages_end table item.usageMax (hmax ha) (item.usageMin,b)
    exact ⟨fuel,b',fun m hm => by rw [if_pos rfl,run_le hrun hm]⟩
  | false =>
    rcases htyped with htype | htype | htype
    · exact ⟨0,_,fun _ _ => by rw [if_neg Bool.false_ne_true,if_pos htype]⟩
    · have hne : item.type ≠ 0 := by
        rw [htype]
        decide
      exact ⟨0,_,fun _ _ => by rw [if_neg Bool.false_ne_true,if_neg hne,if_pos htype]⟩
    · have hne : item.type ≠ 0 ∧ item.type ≠ evKey := by
        rw [htype]
        decide
      exact ⟨0,_,fun _ _ => by
        rw [if_neg Bool.false_ne_true,if_neg hne.1,if_neg hne.2,if_pos htype]⟩

theorem fillBitmaps_bounded {fuel : Nat} {b b' : Bitmaps}
    (h : fillBitmaps table fuel items b = some b') :
    ∀ item ∈ items, item.isArray → item.usageMax ≠ 0xffffffff := by
  induction items generalizing b with
  | nil => exact fun _ hmem => absurd hmem List.not_mem_nil
  | cons item items ih =>
    obtain ⟨b₁,hitem,hrest⟩ := Option.bind_eq_some_iff.mp h
    exact List.forall_mem_cons.mpr ⟨bitmapItem_bounded hitem,ih hrest⟩

theorem fillBitmaps_ends (htyped : ∀ item ∈ items, item.Typed)
    (hmax : ∀ item ∈ items, item.isArray → item.usageMax ≠ 0xffffffff) (b : Bitmaps) :
    ∃ fuel b', ∀ m ≥ fuel, fillBitmaps table m items b = some b' := by
  induction items generalizing b with
  | nil => exact ⟨0,b,fun _ _ => rfl⟩
  | cons item items ih =>
    rw [List.forall_mem_cons] at htyped hmax
    obtain ⟨n,b₁,hitem⟩ := @bitmapItem_ends table item htyped.1 hmax.1 b
    obtain ⟨m,b₂,hrest⟩ := ih htyped.2 hmax.2 b₁
    refine ⟨max n m,b₂,fun k hk => ?_⟩
    rw [fillBitmaps,hitem k (by omega),Option.bind_some,hrest k (by omega)]

end Usages

section Calls

variable {table : KeycodeTable} {data : Nat → UInt8} {length : UInt16} {old items : List InputItem}
  {capacity : Nat} {heap : Bump} {b : Bitmaps} {fuel : Nat} {r : Parsed}

theorem usageEvent_type (table : KeycodeTable) (usage : UInt32) :
    (usageEvent table usage).1 = 0 ∨ (usageEvent table usage).1 = evKey ∨
      (usageEvent table usage).1 = evRel := by
  unfold usageEvent
  split_ifs <;> simp

theorem Pushed.typed (table : KeycodeTable) : Pushed table InputItem.Typed :=
  ⟨fun _ => .inl rfl,fun _ _ _ => .inl rfl,fun _ => usageEvent_type table⟩

theorem finish_cases (p : Parser) : p.finish = (true,p.inputItems) ∨ p.finish = (false,[]) := by
  unfold Parser.finish
  split_ifs
  · exact .inl rfl
  · exact .inr rfl

theorem Pushed.left {P : InputItem → Prop} (hP : Pushed table P) (hold : ∀ item ∈ old, P item)
    {ok : Bool} (h : Ends (parseStep table data length) { inputItems := old } (ok,items)) :
    ∀ item ∈ items, P item := by
  obtain ⟨p,hp,hstop⟩ := Ends.last h
  unfold parseStep at hstop
  split_ifs at hstop
  have hfinish := Turn.stop.inj hstop
  rcases finish_cases p with hcase | hcase
  · cases hcase.symm.trans hfinish
    exact Parser.Pushed.visits hP hp hold
  · cases hcase.symm.trans hfinish
    exact fun _ hmem => absurd hmem List.not_mem_nil

theorem parse_eq (h : parse table data length old capacity heap b fuel = some r) :
    ∃ s, run (storedStep table data length) fuel (opening old capacity heap) =
        some ((r.reportProtocolUsable,r.inputItems),s) ∧
      (r.reportProtocolUsable = true → fillBitmaps table fuel r.inputItems b = some r.bitmaps) := by
  obtain ⟨⟨⟨ok,items⟩,s⟩,hscan,hrest⟩ := Option.bind_eq_some_iff.mp h
  cases ok with
  | true =>
    obtain ⟨b',hfill,rfl⟩ := Option.map_eq_some_iff.mp hrest
    exact ⟨s,hscan,fun _ => hfill⟩
  | false =>
    cases hrest
    exact ⟨s,hscan,nofun⟩

theorem Earlier.typed (h : Earlier table old capacity) : ∀ item ∈ old, item.Typed := by
  induction h with
  | first => exact fun _ hmem => absurd hmem List.not_mem_nil
  | parsed _ hr ih =>
    obtain ⟨s,hscan,-⟩ := parse_eq hr
    exact (Pushed.typed table).left ih ⟨_,run_parses hscan⟩

theorem parse_total_iff (hold : Earlier table old capacity) (data : Nat → UInt8) (length : UInt16)
    (heap : Bump) (b : Bitmaps) :
    ParseTotal table data length old capacity heap b ↔
      Whole data length.toNat ∧ Bounded table data length old ∧
        Roomy table data length old capacity heap := by
  constructor
  · intro h
    obtain ⟨fuel,r,hr⟩ := h.ends
    obtain ⟨s,hscan,hfill⟩ := parse_eq hr
    refine ⟨whole_of_reads ⟨fuel,hscan⟩ h.reads,?_,ends_grows ⟨fuel,hscan⟩ length.toNat⟩
    rintro items ⟨n,hn⟩
    have heq := Ends.unique ⟨fuel,run_parses hscan⟩ ⟨n,hn⟩
    rw [Prod.mk.injEq] at heq
    exact heq.2 ▸ fillBitmaps_bounded (hfill heq.1)
  · rintro ⟨hw,hbounded,hroom⟩
    refine ⟨?_,fun c hc hi => reads_of_whole hw hc hi⟩
    obtain ⟨⟨⟨ok,items⟩,s⟩,n,hn⟩ := grows_ends (c := opening old capacity heap) hw .first
      (Nat.sub_le _ _) hroom
    have hparsed := run_parses hn
    cases ok with
    | true =>
      have htyped := (Pushed.typed table).left hold.typed ⟨n,hparsed⟩
      obtain ⟨m,b',hfill⟩ := fillBitmaps_ends htyped (hbounded items ⟨n,hparsed⟩) b
      have hscan := run_le hn (Nat.le_max_left n m)
      exact ⟨max n m,⟨true,items,s.items,b'⟩,by rw [parse,hscan,Option.bind_some,if_pos rfl,
        hfill _ (Nat.le_max_right n m),Option.map_some]⟩
    | false => exact ⟨n,⟨false,items,s.items,b⟩,by rw [parse,hn,Option.bind_some,
        if_neg Bool.false_ne_true]⟩

theorem doubled_bounds {fuel cap newCap : Nat} (hcap : 0 < cap) (hfuel : newCap ≤ cap + fuel) :
    newCap ≤ doubled fuel cap newCap ∧ doubled fuel cap newCap ≤ max cap (2 * newCap) := by
  induction fuel generalizing cap with
  | zero => exact ⟨hfuel,le_max_left _ _⟩
  | succ fuel ih =>
    rw [doubled]
    split_ifs with hlt
    · obtain ⟨hle,hmax⟩ := @ih (cap * 2) (by omega) (by omega)
      exact ⟨hle,by omega⟩
    · exact ⟨by omega,le_max_left _ _⟩

theorem reserve_fits {bytes newCap capacity : Nat} {heap : Bump} {v : Bump × Nat}
    (h : reserve bytes newCap capacity heap = some v) (hbytes : bytes ≠ 0) (hsmall : bytes ≤ 2 ^ 20)
    (hnew : newCap ≤ capacity + 1) (hfits : bytes * capacity ≤ heapSize) :
    newCap ≤ v.2 ∧ bytes * v.2 ≤ heapSize := by
  rw [reserve] at h
  by_cases hle : newCap ≤ capacity
  · rw [if_pos hle] at h
    cases h
    exact ⟨hle,hfits⟩
  · rw [if_neg hle] at h
    obtain ⟨⟨heap',ptr⟩,halloc,rfl⟩ := Option.map_eq_some_iff.mp h
    have hstart : 0 < (if capacity = 0 then 1 else capacity) ∧
        (if capacity = 0 then 1 else capacity) ≤ capacity + 1 := by
      split_ifs
      · omega
      · omega
    obtain ⟨hcap,hmax⟩ := @doubled_bounds newCap _ newCap hstart.1 (by omega)
    generalize doubled newCap (if capacity = 0 then 1 else capacity) newCap = cap at *
    have hbound : bytes * cap ≤ bytes * (2 * (capacity + 1)) := Nat.mul_le_mul_left _ (by omega)
    have hsize : bytes * cap ≤ 2 ^ 62 := by
      unfold heapSize at hfits
      rw [Nat.mul_left_comm,Nat.mul_add_one] at hbound
      omega
    obtain ⟨rfl,-,hbase,hend⟩ := Bump.allocate_cases halloc (by
      have := Nat.mul_pos (Nat.pos_of_ne_zero hbytes) (show 0 < cap by omega)
      omega) hsize
    have hnext := heap.next_bounds.1
    have hin := heap'.inside
    exact ⟨hcap,by dsimp only; omega⟩

theorem pushMany_fits {bytes count size : Nat} {v v' : Bump × Nat}
    (h : pushMany bytes count size v = some v') (hbytes : bytes ≠ 0) (hsmall : bytes ≤ 2 ^ 20)
    (hsize : size ≤ v.2) (hfits : bytes * v.2 ≤ heapSize) :
    size + count ≤ v'.2 ∧ bytes * v'.2 ≤ heapSize := by
  induction count generalizing size v with
  | zero =>
    cases h
    exact ⟨hsize,hfits⟩
  | succ count ih =>
    obtain ⟨u,hu,hrest⟩ := Option.bind_eq_some_iff.mp h
    obtain ⟨hcap,hroom⟩ := reserve_fits hu hbytes hsmall (by omega) hfits
    obtain ⟨hle,hlast⟩ := ih hrest hcap hroom
    exact ⟨by omega,hlast⟩

theorem Storage.grow_fits {s s' : Storage} {old new : Nat × Nat} (h : s.grow old new = some s')
    (hold : old.2 ≤ s.items) (hfits : inputItemBytes * s.items ≤ heapSize) :
    new.2 ≤ s'.items ∧ inputItemBytes * s'.items ≤ heapSize := by
  obtain ⟨u,-,h⟩ := Option.bind_eq_some_iff.mp h
  obtain ⟨v,hv,rfl⟩ := Option.map_eq_some_iff.mp h
  obtain ⟨hle,hroom⟩ := pushMany_fits hv (by decide) (by decide) hold hfits
  exact ⟨by dsimp only; omega,hroom⟩

theorem Storage.growAll_fits {sizes : List (Nat × Nat)} {s s' : Storage} {old : Nat × Nat}
    (h : s.growAll old sizes = some s') (hold : old.2 ≤ s.items)
    (hfits : inputItemBytes * s.items ≤ heapSize) : ∀ new ∈ sizes, inputItemBytes * new.2 ≤ heapSize := by
  induction sizes generalizing s old with
  | nil => exact fun _ hmem => absurd hmem List.not_mem_nil
  | cons new rest ih =>
    obtain ⟨s₁,hgrow,hrest⟩ := Option.bind_eq_some_iff.mp h
    obtain ⟨hle,hroom⟩ := grow_fits hgrow hold hfits
    exact List.forall_mem_cons.mpr ⟨(Nat.mul_le_mul_left _ hle).trans hroom,ih hrest hle hroom⟩

theorem Roomy.declared_le (h : Roomy table data length [] 0 heap) :
    ∀ sizes ∈ declared table data length length.toNat {}, inputItemBytes * sizes.2 ≤ heapSize := by
  obtain ⟨s,hs⟩ := Option.isSome_iff_exists.mp h
  exact Storage.growAll_fits hs (Nat.le_refl 0) (Nat.zero_le _)

end Calls

def noKeys : KeycodeTable := fun _ => 240

def bootHeap : Bump where
  bytes := fun _ => 0
  allocBase := 0xffffa00000000000
  allocPtr := 0x1000
  aligned := by decide
  fits := by decide
  inside := by decide

def keyboard (i : Nat) : UInt8 :=
  [0x05,0x07,0x19,0xe0,0x29,0xe7,0x75,0x01,0x95,0x08,0x81,0x02,0x75,0x08,0x95,0x02,0x19,0x00,0x29,0x65,
    0x81,0x00].getD i 0

def keyboardItems : List InputItem :=
  List.replicate 8 { sizeBits := 1, type := evKey, code := 240 } ++
    List.replicate 2 { sizeBits := 8, usageMin := 0x70000, usageMax := 0x70065, isArray := true }

theorem keyboard_accepts : Accepts noKeys keyboard 22 [] keyboardItems := ⟨23,by decide +kernel⟩

theorem Header.mem {data : Nat → UInt8} {length j : Nat} {starts : List Nat} (hfirst : 0 ∈ starts)
    (hnext : ∀ i ∈ starts, i < length → i + (itemSize (data i)).toNat + 1 ∈ starts)
    (hj : Header data length j) : j ∈ starts := by
  induction hj with
  | first => exact hfirst
  | next _ hi ih => exact hnext _ ih hi

theorem keyboard_whole : Whole keyboard 22 := by
  intro i hi
  have hfits : ∀ i ∈ (List.range 12).map (2 * ·), i < 22 → i + (itemSize (keyboard i)).toNat < 22 := by
    decide
  exact hfits i (hi.mem (by decide) (by decide))

theorem keyboard_roomy : Roomy noKeys keyboard 22 [] 0 bootHeap := by
  unfold Roomy
  decide +kernel

theorem parse_total_keyboard : ParseTotal noKeys keyboard 22 [] 0 bootHeap {} := by
  refine (parse_total_iff .first keyboard 22 bootHeap {}).mpr ⟨keyboard_whole,?_,keyboard_roomy⟩
  intro items hitems
  have heq := Ends.unique hitems keyboard_accepts
  rw [Prod.mk.injEq] at heq
  rw [heq.2]
  decide

def crowded (i : Nat) : UInt8 := [0x75,0x08,0x97,0xff,0xff,0xff,0xff,0x81,0x00].getD i 0

theorem Parser.input_array {table : KeycodeTable} {p : Parser} {n : UInt32} (hconst : n &&& 1 = 0)
    (harray : (n >>> 1) &&& 1 = 0) :
    (p.input table n).inputItems.length = p.inputItems.length + p.reportCount.toNat := by
  rw [Parser.input,if_neg (fun h => h hconst),if_pos harray,Parser.pushItems]
  dsimp only
  rw [List.length_append,List.length_replicate]

theorem crowded_item (p : Parser) (hi : p.i = 7) :
    (p.item noKeys crowded 9).sizes = (0,p.inputItems.length + p.reportCount.toNat) := by
  unfold Parser.item Parser.dispatch Parser.mainItem
  dsimp only
  rw [hi,if_pos (by decide),if_pos (by decide)]
  exact Prod.ext rfl (Parser.input_array (by decide) (by decide))

theorem crowded_declares : (0,4294967295) ∈ declared noKeys crowded 9 9 {} := by
  have hsize : Parser.item noKeys crowded 9 {} = { i := 2, reportSize := 8 } := by decide
  have hcount : Parser.item noKeys crowded 9 { i := 2, reportSize := 8 } =
      { i := 7, reportSize := 8, reportCount := 0xffffffff } := by decide
  rw [declared,if_pos (by decide),hsize]
  refine List.mem_cons_of_mem _ ?_
  rw [declared,if_pos (by decide),hcount]
  refine List.mem_cons_of_mem _ ?_
  rw [declared,if_pos (by decide)]
  exact List.mem_cons.mpr (.inl (crowded_item { i := 7, reportSize := 8, reportCount := 0xffffffff } rfl).symm)

-- A usage page item without its byte, and more items than the heap has room for
theorem descriptor_overruns : ¬ParseTotal noKeys (fun _ => 0x05) 1 [] 0 bootHeap {} ∧
    ¬ParseTotal noKeys crowded 9 [] 0 bootHeap {} := by
  constructor
  · intro h
    have hread := h.reads _ .refl (by decide) 1 (by decide)
    exact absurd hread (by decide)
  · intro h
    obtain ⟨fuel,r,hr⟩ := h.ends
    obtain ⟨s,hscan,-⟩ := parse_eq hr
    have hroom : Roomy noKeys crowded 9 [] 0 bootHeap := ends_grows ⟨fuel,hscan⟩ 9
    exact absurd (hroom.declared_le _ crowded_declares) (by decide)

end SabaOS.Dev.Hid
