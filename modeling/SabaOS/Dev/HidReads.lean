import SabaOS.Dev.HidFields

namespace SabaOS.Dev.Hid

open SabaOS.Lib

namespace InputItem

def accesses (item : InputItem) (length : Nat) (bitOffset : UInt32) : List Nat :=
  let byteOffset := (bitOffset / 8).toNat
  if length ≤ byteOffset then []
  else if item.sizeBits = 1 then [byteOffset]
  else if bitOffset % 8 = 0 then
    if item.sizeBits = 8 then [byteOffset]
    else if item.sizeBits = 16 then
      if length ≤ byteOffset + 1 then [] else [byteOffset,byteOffset + 1]
    else []
  else []

def Inside (item : InputItem) (length : Nat) (bitOffset : UInt32) : Prop :=
  (bitOffset / 8).toNat < length ∧
    (item.sizeBits = 16 → bitOffset % 8 = 0 → (bitOffset / 8).toNat + 1 < length)

def Stuck (item : InputItem) (length : Nat) (bitOffset : UInt32) : Prop :=
  (bitOffset / 8).toNat < length ∧ bitOffset % 8 = 0 ∧ ¬item.Sized

section

variable {item : InputItem} {data data' : List UInt8} {bitOffset : UInt32} {length : Nat} {n : Int}

theorem accesses_lt : ∀ j ∈ item.accesses length bitOffset, j < length := by
  intro j hj
  unfold accesses at hj
  dsimp only at hj
  split_ifs at hj with hout hone halign height hword hlast
  · exact absurd hj List.not_mem_nil
  · rw [List.mem_singleton.mp hj]
    exact Nat.not_le.mp hout
  · rw [List.mem_singleton.mp hj]
    exact Nat.not_le.mp hout
  · exact absurd hj List.not_mem_nil
  · rcases List.mem_cons.mp hj with rfl | hj
    · exact Nat.not_le.mp hout
    · rw [List.mem_singleton.mp hj]
      exact Nat.not_le.mp hlast
  · exact absurd hj List.not_mem_nil
  · exact absurd hj List.not_mem_nil

theorem field_outside_iff : item.field data bitOffset = .outside ↔ ¬item.Inside data.length bitOffset := by
  constructor
  · rintro h ⟨hlt,hword⟩
    unfold field at h
    dsimp only at h
    split_ifs at h with hout hone halign height hsixteen hlast
    · exact absurd hlt (Nat.not_lt.mpr hout)
    · exact absurd (hword hsixteen halign) (Nat.not_lt.mpr hlast)
  · intro hnot
    unfold field
    dsimp only
    rcases Nat.lt_or_ge (bitOffset / 8).toNat data.length with hlt | hge
    · have hends : item.sizeBits = 16 ∧ bitOffset % 8 = 0 ∧ data.length ≤ (bitOffset / 8).toNat + 1 := by
        refine by_contra fun hno => hnot ⟨hlt,fun hsixteen halign => ?_⟩
        exact Nat.not_le.mp fun hlast => hno ⟨hsixteen,halign,hlast⟩
      obtain ⟨hsixteen,halign,hlast⟩ := hends
      rw [if_neg (Nat.not_le.mpr hlt),if_neg (by rw [hsixteen]; decide),if_pos halign,
        if_neg (by rw [hsixteen]; decide),if_pos hsixteen,if_pos hlast]
    · exact if_pos hge

theorem field_stuck_iff : item.field data bitOffset = .unreachable ↔ item.Stuck data.length bitOffset := by
  constructor
  · intro h
    unfold field at h
    dsimp only at h
    split_ifs at h with hout hone halign height hsixteen hlast
    refine ⟨Nat.not_le.mp hout,halign,?_⟩
    rintro (hsize | hsize | hsize)
    · exact hone hsize
    · exact height hsize
    · exact hsixteen hsize
  · rintro ⟨hlt,halign,hsize⟩
    unfold field
    dsimp only
    rw [if_neg (Nat.not_le.mpr hlt),if_neg fun h => hsize (.inl h),if_pos halign,
      if_neg fun h => hsize (.inr (.inl h)),if_neg fun h => hsize (.inr (.inr h))]

theorem field_value_inside (h : item.field data bitOffset = .value n) : item.Inside data.length bitOffset := by
  by_contra hnot
  cases (field_outside_iff.mpr hnot).symm.trans h

theorem supported_not_stuck (h : item.supported bitOffset) (htype : item.type ≠ 0) :
    ¬item.Stuck length bitOffset := by
  rintro ⟨-,halign,hsize⟩
  simp only [supported,Bool.or_eq_true,Bool.and_eq_true,decide_eq_true_eq] at h
  rcases h with (htype' | hone) | ⟨-,hsize'⟩
  · exact htype htype'
  · exact hsize (.inl hone)
  · exact hsize (.inr hsize')

end

end InputItem

def eventAccesses (data : List UInt8) : UInt32 → List InputItem → List Nat
  | _,[] => []
  | bitOffset,item :: items => item.accesses data.length bitOffset ++
    match item.field data bitOffset with
    | .value _ => eventAccesses data (bitOffset + item.sizeBits) items
    | _ => []

def Passes (length : Nat) : UInt32 → List InputItem → Prop
  | _,[] => True
  | bitOffset,item :: items => (item.type = 0 → ¬item.Stuck length bitOffset) ∧
    (item.Inside length bitOffset → Passes length (bitOffset + item.sizeBits) items)

def SafeReports (table : KeycodeTable) : List (List UInt8) → List InputItem → Keys → Prop
  | [],_,_ => True
  | bytes :: reports,items,k => (∀ j ∈ eventAccesses bytes 0 items, j < bytes.length) ∧
    ∃ r, event table bytes items k = some r ∧ SafeReports table reports r.inputItems r.keys

inductive SameFields : List InputItem → List InputItem → Prop where
  | nil : SameFields [] []
  | cons {item item' : InputItem} {items items' : List InputItem} (hsize : item'.sizeBits = item.sizeBits)
      (htype : item'.type = item.type) (h : SameFields items items') :
      SameFields (item :: items) (item' :: items')

section Loop

variable {table : KeycodeTable} {data : List UInt8} {bitOffset : UInt32} {items items' : List InputItem}
  {k : Keys} {r : Reported} {length : Nat}

theorem SameFields.refl (items : List InputItem) : SameFields items items := by
  induction items with
  | nil => exact .nil
  | cons item items ih => exact .cons rfl rfl ih

theorem SameFields.passes (h : SameFields items items') :
    Passes length bitOffset items' ↔ Passes length bitOffset items := by
  induction h generalizing bitOffset with
  | nil => exact Iff.rfl
  | cons hsize htype _ ih =>
    simp only [Passes,InputItem.Stuck,InputItem.Inside,InputItem.Sized,hsize,htype,ih]

theorem SameFields.supported (h : SameFields items items') :
    allSupported bitOffset items' = allSupported bitOffset items := by
  induction h generalizing bitOffset with
  | nil => rfl
  | cons hsize htype _ ih => simp only [allSupported,InputItem.supported,hsize,htype,ih]

theorem handle_fields (item : InputItem) (n : Int) (k : Keys) :
    (item.handle table n k).1.sizeBits = item.sizeBits ∧ (item.handle table n k).1.type = item.type := by
  unfold InputItem.handle InputItem.changeSlot
  dsimp only
  split_ifs <;> exact ⟨rfl,rfl⟩

theorem eventLoop_fields (h : eventLoop table data bitOffset items k = some r) :
    SameFields items r.inputItems := by
  induction items generalizing bitOffset k r with
  | nil =>
    cases h
    exact .nil
  | cons item items ih =>
    simp only [eventLoop] at h
    split at h
    · cases h
      exact .refl _
    · cases h
    · split at h
      · cases h
      · rename_i hrest
        cases h
        obtain ⟨hsize,htype⟩ := handle_fields _ _ _
        exact .cons hsize htype (ih hrest)

theorem eventAccesses_lt : ∀ j ∈ eventAccesses data bitOffset items, j < data.length := by
  induction items generalizing bitOffset with
  | nil => exact fun j hj => absurd hj List.not_mem_nil
  | cons item items ih =>
    intro j hj
    rw [eventAccesses] at hj
    rcases List.mem_append.mp hj with hj | hj
    · exact InputItem.accesses_lt j hj
    · split at hj
      · exact ih j hj
      · exact absurd hj List.not_mem_nil

theorem eventLoop_passes (h : allSupported bitOffset items) :
    (∃ r, eventLoop table data bitOffset items k = some r) ↔ Passes data.length bitOffset items := by
  induction items generalizing bitOffset k with
  | nil => exact iff_of_true ⟨_,rfl⟩ trivial
  | cons item items ih =>
    rw [allSupported,Bool.and_eq_true] at h
    obtain ⟨hitem,hitems⟩ := h
    rw [Passes]
    cases hf : item.field data bitOffset with
    | outside =>
      have hnot := InputItem.field_outside_iff.mp hf
      have hstuck : ¬item.Stuck data.length bitOffset := fun hs => by
        cases (InputItem.field_stuck_iff.mpr hs).symm.trans hf
      exact iff_of_true ⟨⟨item :: items,k,[]⟩,by simp only [eventLoop,hf]⟩ ⟨fun _ => hstuck,fun hin => absurd hin hnot⟩
    | unreachable =>
      have hstuck := InputItem.field_stuck_iff.mp hf
      refine iff_of_false ?_ ?_
      · rintro ⟨r,hr⟩
        simp only [eventLoop,hf] at hr
        cases hr
      · rintro ⟨hnot,-⟩
        refine hnot ?_ hstuck
        by_contra htype
        exact InputItem.supported_not_stuck hitem htype hstuck
    | value n =>
      have hstuck : ¬item.Stuck data.length bitOffset := fun hs => by
        cases (InputItem.field_stuck_iff.mpr hs).symm.trans hf
      have hin := InputItem.field_value_inside hf
      have hrest := @ih (bitOffset + item.sizeBits) (item.handle table n k).2 hitems
      constructor
      · rintro ⟨r,hr⟩
        refine ⟨fun _ => hstuck,fun _ => hrest.mp ?_⟩
        simp only [eventLoop,hf] at hr
        split at hr
        · cases hr
        · rename_i r' hr'
          exact ⟨r',hr'⟩
      · rintro ⟨-,hpass⟩
        obtain ⟨r',hr'⟩ := hrest.mpr (hpass hin)
        exact ⟨⟨(item.handle table n k).1 :: r'.inputItems,r'.keys,
          ⟨n,k,(item.handle table n k).2⟩ :: r'.visits⟩,by simp only [eventLoop,hf,hr']⟩

end Loop

theorem safeReports_iff {table : KeycodeTable} {reports : List (List UInt8)} {items : List InputItem}
    (h : allSupported 0 items) (k : Keys) :
    SafeReports table reports items k ↔ ∀ bytes ∈ reports, Passes bytes.length 0 items := by
  induction reports generalizing items k with
  | nil => exact iff_of_true trivial fun _ hmem => absurd hmem List.not_mem_nil
  | cons bytes reports ih =>
    rw [SafeReports,List.forall_mem_cons]
    constructor
    · rintro ⟨-,r,hr,hrest⟩
      have hsame : SameFields items r.inputItems := eventLoop_fields hr
      refine ⟨(eventLoop_passes h).mp ⟨r,hr⟩,fun other hmem => hsame.passes.mp ?_⟩
      exact (ih (hsame.supported.trans h) r.keys).mp hrest other hmem
    · rintro ⟨hpass,hothers⟩
      obtain ⟨r,hr⟩ := (@eventLoop_passes table bytes 0 items k h).mpr hpass
      have hsame : SameFields items r.inputItems := eventLoop_fields hr
      refine ⟨eventAccesses_lt,r,hr,(ih (hsame.supported.trans h) r.keys).mpr ?_⟩
      exact fun other hmem => hsame.passes.mpr (hothers other hmem)

theorem reports_safe_iff (table : KeycodeTable) (data : Nat → UInt8) (length : UInt16)
    (old items : List InputItem) (h : Accepts table data length old items)
    (reports : List (List UInt8)) (k : Keys) :
    SafeReports table reports items k ↔ ∀ bytes ∈ reports, Passes bytes.length 0 items :=
  safeReports_iff h.supported k

theorem padded_safe : SafeReports controlTable [[0,1],[0,0]] paddedItems {} := by
  refine (reports_safe_iff controlTable _ 18 [] _ padded_accepts _ {}).mpr fun bytes hbytes => ?_
  have hlength : bytes.length = 2 := by
    revert bytes
    decide
  rw [hlength]
  simp [Passes,paddedItems,InputItem.Stuck,InputItem.Sized,evKey]

section Narrow

def narrow : List UInt8 := [0x75,0x03,0x95,0x01,0x81,0x01]

theorem narrow_accepts : Accepts controlTable (fun i => narrow.getD i 0) 6 []
    [{ sizeBits := 3, isConstant := true }] :=
  ⟨4,by decide +kernel⟩

theorem narrow_unreachable : Accepts controlTable (fun i => narrow.getD i 0) 6 []
      [{ sizeBits := 3, isConstant := true }] ∧
    ¬SafeReports controlTable [[0]] [{ sizeBits := 3, isConstant := true }] {} := by
  refine ⟨narrow_accepts,?_⟩
  rintro ⟨-,r,hr,-⟩
  cases hr

end Narrow

end SabaOS.Dev.Hid
