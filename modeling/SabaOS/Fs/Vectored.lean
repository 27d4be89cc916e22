import SabaOS.Fs.TmpfsRun

namespace SabaOS.Fs.Tmpfs

open SabaOS.Klib SabaOS.Mem SabaOS.Lib

namespace Node

def readvFrom (n : Node) (transferred offset : Nat) :
    List Nat → Except Errno (Nat × List (List UInt8))
  | [] => .ok (transferred,[])
  | len :: lens =>
    if len = 0 then (n.readvFrom transferred offset lens).map fun r => (r.1,[] :: r.2)
    else
      match n.read len offset with
      | .error e =>
        if transferred = 0 then .error e else .ok (transferred,[] :: lens.map fun _ => [])
      | .ok bytes =>
        if bytes.length < len then .ok (transferred + bytes.length,bytes :: lens.map fun _ => [])
        else
          (n.readvFrom (transferred + bytes.length) (uadd offset bytes.length) lens).map fun r =>
            (r.1,bytes :: r.2)

def readv (n : Node) (lens : List Nat) (offset : Nat) : Except Errno (Nat × List (List UInt8)) :=
  n.readvFrom 0 offset lens

def writevFrom (n : Node) (transferred offset : Nat) :
    List (List UInt8) → Option (Node × Except Errno Nat)
  | [] => some (n,.ok transferred)
  | buf :: bufs =>
    if buf.length = 0 then n.writevFrom transferred offset bufs
    else
      (n.write buf offset).bind fun r =>
        match r.2 with
        | .error e => some (r.1,if transferred = 0 then .error e else .ok transferred)
        | .ok count =>
          if count < buf.length then some (r.1,.ok (transferred + count))
          else r.1.writevFrom (transferred + count) (uadd offset count) bufs

def writev (n : Node) (bufs : List (List UInt8)) (offset : Nat) :
    Option (Node × Except Errno Nat) := n.writevFrom 0 offset bufs

end Node

def laidOut : List Nat → List UInt8 → List (List UInt8)
  | [],_ => []
  | len :: lens,bytes => bytes.take len :: laidOut lens (bytes.drop len)

theorem laidOut_nil (lens : List Nat) : laidOut lens [] = lens.map fun _ => [] := by
  induction lens with
  | nil => rfl
  | cons len lens ih => rw [laidOut,List.take_nil,List.drop_nil,ih,List.map_cons]

section Read

variable {n : Node} {offset : Nat}

def Node.rest (n : Node) (count offset : Nat) : List UInt8 :=
  copyOut n.heap.bytes (n.data.storage + offset) (min count (n.data.size - offset))

theorem size_bound (hn : Owned n) : n.data.size ≤ 2 ^ 62 := hn.size_le.trans hn.shape.le

theorem read_eq (hn : Owned n) {count : Nat} (hc : count < 2 ^ 63) :
    n.read count offset = .ok (n.rest count offset) := by
  have hsize := size_bound hn
  simp only [Node.read,if_neg hn.regular,Node.rest]
  split_ifs with hoff hpast
  · have hmin : min count (n.data.size - offset) = 0 := by omega
    rw [hmin]
    rfl
  · rw [uadd_of_lt (by omega)] at hpast
    have hmin : min count (n.data.size - offset) = n.data.size - offset := by omega
    rw [hmin]
  · rw [uadd_of_lt (by omega)] at hpast
    have hmin : min count (n.data.size - offset) = count := by omega
    rw [hmin]

theorem readvFrom_eq (hn : Owned n) {lens : List Nat} (transferred : Nat)
    (hl : lens.sum < 2 ^ 63) : n.readvFrom transferred offset lens =
      .ok (transferred + (n.rest lens.sum offset).length,laidOut lens (n.rest lens.sum offset)) := by
  have hsize := size_bound hn
  induction lens generalizing transferred offset with
  | nil => simp [Node.readvFrom,laidOut,Node.rest,copyOut]
  | cons len lens ih =>
    rw [List.sum_cons] at hl ⊢
    rw [Node.readvFrom]
    by_cases h0 : len = 0
    · subst h0
      rw [if_pos rfl,ih transferred (by omega),Nat.zero_add]
      rfl
    · rw [if_neg h0,read_eq hn (by omega)]
      dsimp only
      have hlen : (n.rest len offset).length = min len (n.data.size - offset) :=
        copyOut_length _ _ _
      split_ifs with hshort
      · have hall : n.rest (len + lens.sum) offset = n.rest len offset := by
          rw [Node.rest,Node.rest]
          congr 1
          omega
        rw [hall,laidOut,List.take_of_length_le hshort.le,List.drop_of_length_le hshort.le,
          laidOut_nil]
      · have hfit : len ≤ n.data.size - offset := by omega
        have htake : (n.rest (len + lens.sum) offset).take len = n.rest len offset := by
          rw [Node.rest,Node.rest,copyOut_take _ _ (by omega),Nat.min_eq_left hfit]
        have hdrop : (n.rest (len + lens.sum) offset).drop len = n.rest lens.sum (offset + len) := by
          rw [Node.rest,Node.rest,copyOut_drop _ _ (by omega),Nat.add_assoc]
          congr 1
          omega
        have hsum : (n.rest (len + lens.sum) offset).length =
            len + (n.rest lens.sum (offset + len)).length := by
          simp only [Node.rest,copyOut_length]
          omega
        have hcount : (n.rest len offset).length = len := by omega
        rw [hcount,uadd_of_lt (by omega),ih (transferred + len) (by omega),laidOut,htake,hdrop,hsum,
          Nat.add_assoc]
        rfl

end Read

section Growth

variable {n n' : Node} {size size' fuel c c' d length : Nat}

theorem growCapacity_least (h : growCapacity size fuel c = some c') (hc : Quadruple c)
    (hlt : c < size) (hd : Quadruple d) (hle : size ≤ d) : c' ≤ d ∧ max 1 (4 * c) ≤ c' := by
  induction fuel generalizing c with
  | zero =>
    rw [growCapacity,if_pos hlt] at h
    cases h
  | succ fuel ih =>
    rw [growCapacity,if_pos hlt] at h
    have hnext : max 1 (c * 4 % 2 ^ 64) ≤ d ∧ c * 4 < 2 ^ 64 := by
      obtain rfl | ⟨j,hj,rfl⟩ := hd
      · omega
      obtain rfl | ⟨k,hk,rfl⟩ := hc
      · exact ⟨Nat.one_le_pow _ _ (by decide),by decide⟩
      have hkj : k + 1 ≤ j := Nat.lt_of_not_le fun hjk => by
        have := Nat.pow_le_pow_right (show 0 < 4 by decide) hjk
        omega
      have hpow : 4 ^ (k + 1) ≤ 4 ^ j := Nat.pow_le_pow_right (by decide) hkj
      have htop : 4 ^ j ≤ 4 ^ 31 := Nat.pow_le_pow_right (by decide) hj
      rw [← Nat.pow_succ]
      have hone : 1 ≤ 4 ^ (k + 1) := Nat.one_le_pow _ _ (by decide)
      rw [Nat.mod_eq_of_lt (by omega),Nat.max_eq_right hone]
      exact ⟨hpow,by omega⟩
    rw [Nat.mod_eq_of_lt hnext.2,Nat.mul_comm c 4] at h hnext
    have hq := hc.next
    rw [Nat.mod_eq_of_lt (by omega),Nat.mul_comm c 4] at hq
    by_cases hmore : max 1 (4 * c) < size
    · obtain ⟨h1,h2⟩ := ih h hq hmore
      exact ⟨h1,by omega⟩
    · have hc' : c' = max 1 (4 * c) := by
        cases fuel with
        | zero =>
          rw [growCapacity,if_neg hmore] at h
          exact (Option.some.inj h).symm
        | succ fuel =>
          rw [growCapacity,if_neg hmore] at h
          exact (Option.some.inj h).symm
      exact ⟨hc' ▸ hnext.1,hc'.ge⟩

def Node.top (n : Node) : Nat := n.heap.next Bump.defaultAlignment - n.heap.allocBase

theorem alignUp_sixteen {i : Nat} (h : i + 16 < 2 ^ 64) : alignUp i 16 = (i + 15) / 16 * 16 := by
  unfold alignUp
  split_ifs with h0
  · rw [Nat.mod_eq_of_lt (by omega)]
    omega
  · omega

theorem top_eq (n : Node) : n.top = (n.heap.allocPtr + 15) / 16 * 16 := by
  have ha := n.heap.aligned
  have hf := n.heap.fits.2
  have hi := n.heap.inside
  simp only [heapSize] at hf hi
  have htop : n.top = alignUp (n.heap.allocBase + n.heap.allocPtr) 16 - n.heap.allocBase := rfl
  rw [htop,alignUp_sixteen (by omega)]
  omega

theorem allocate_isSome (b : Bump) (h0 : size ≠ 0) (hs : size ≤ 2 ^ 62) :
    (b.allocate size Bump.defaultAlignment).isSome ↔
      b.next Bump.defaultAlignment - b.allocBase + size < heapSize := by
  have hn := b.next_bounds
  have hf := b.fits
  have husub : usub (b.next Bump.defaultAlignment) b.allocBase =
      b.next Bump.defaultAlignment - b.allocBase := usub_of_le (by omega) (by omega)
  have huadd : uadd (b.next Bump.defaultAlignment - b.allocBase) size =
      b.next Bump.defaultAlignment - b.allocBase + size := by
    apply uadd_of_lt
    simp only [heapSize] at hn
    omega
  simp only [Bump.allocate,if_neg h0,husub,huadd]
  split_ifs with h
  · simpa using h
  · simpa using h

theorem reallocate_isSome (b : Bump) (ptr : Nat) (h0 : size ≠ 0) (hs : size ≤ 2 ^ 62) :
    (b.reallocate ptr size).isSome ↔
      b.next Bump.defaultAlignment - b.allocBase + size < heapSize := by
  rw [← allocate_isSome b h0 hs]
  unfold Bump.reallocate
  split_ifs
  · rfl
  · cases b.allocate size Bump.defaultAlignment <;> simp

theorem reallocate_cases {b b' : Bump} {ptr p : Nat} (h : b.reallocate ptr size = some (b',p))
    (h0 : size ≠ 0) (hs : size ≤ 2 ^ 62) :
    b'.allocPtr = b.next Bump.defaultAlignment - b.allocBase + size := by
  have hn := b.next_bounds
  unfold Bump.reallocate at h
  split_ifs at h
  · obtain ⟨rfl,-,hb,hp⟩ := Bump.allocate_cases h h0 hs
    omega
  · simp only [Option.bind_eq_bind,Option.bind_eq_some_iff,Option.pure_def] at h
    obtain ⟨⟨b'',p'⟩,hr,h⟩ := h
    cases h
    obtain ⟨rfl,-,hb,hp⟩ := Bump.allocate_cases hr h0 hs
    dsimp only at hb hp ⊢
    omega

def Taken (n n' : Node) (length : Nat) : Prop :=
  length ≤ n.data.capacity ∧ n'.data.capacity = n.data.capacity ∧
      n'.heap.allocPtr = n.heap.allocPtr ∨
    n.data.capacity < length ∧ growCapacity length 33 n.data.capacity = some n'.data.capacity ∧
      n'.heap.allocPtr = n.top + n'.data.capacity ∧ n'.heap.allocPtr < heapSize

def Room (n : Node) (length : Nat) : Prop :=
  length ≤ n.data.capacity ∨
    ∃ c, growCapacity length 33 n.data.capacity = some c ∧ n.top + c < heapSize

theorem growPast_taken (hn : Owned n) (h : n.growPast length = some n') : Taken n n' length := by
  have hsize := hn.size_le
  unfold Node.growPast Node.growTo at h
  split_ifs at h with hlt hcap
  · simp only [Option.bind_eq_bind,Option.bind_eq_some_iff,Option.pure_def] at h
    obtain ⟨c,hc,⟨heap,p⟩,hr,h⟩ := h
    cases h
    obtain ⟨hle,hq⟩ := growCapacity_spec hc hn.shape
    have hfit := (reallocate_isSome _ _ (by omega) hq.le).mp (Option.isSome_of_mem hr)
    have hptr := reallocate_cases hr (by omega) hq.le
    exact .inr ⟨hcap,hc,hptr,hptr ▸ hfit⟩
  · cases h
    exact .inl ⟨Nat.le_of_not_lt hcap,rfl,rfl⟩
  · cases h
    exact .inl ⟨by omega,rfl,rfl⟩

theorem growPast_isSome (hn : Owned n) (h : Room n length) : (n.growPast length).isSome := by
  unfold Node.growPast Node.growTo
  split_ifs with hlt hcap
  · obtain hle | ⟨c,hc,hfit⟩ := h
    · omega
    obtain ⟨hle,hq⟩ := growCapacity_spec hc hn.shape
    obtain ⟨r,hr⟩ := Option.isSome_iff_exists.mp
      ((reallocate_isSome n.heap n.data.storage (by omega) hq.le).mpr hfit)
    simp [hc,hr]
  · rfl
  · rfl

theorem write_taken (hn : Owned n) {buf : List UInt8} (hb : buf ≠ []) {offset : Nat}
    (hr : offset + buf.length < 2 ^ 64) {ret : Except Errno Nat}
    (h : n.write buf offset = some (n',ret)) :
    Taken n n' (offset + buf.length) ∧ ret = .ok buf.length := by
  have hpos : buf.length ≠ 0 := by simpa using hb
  simp only [Node.write,if_neg hn.regular,if_neg hpos,uadd_of_lt hr,Option.bind_eq_bind,
    Option.bind_eq_some_iff,Option.pure_def] at h
  obtain ⟨n₁,h₁,h⟩ := h
  cases h
  have ht := growPast_taken hn h₁
  exact ⟨ht,rfl⟩

theorem write_isSome (hn : Owned n) {buf : List UInt8} {offset : Nat}
    (hr : offset + buf.length < 2 ^ 64) (h : Room n (offset + buf.length)) :
    (n.write buf offset).isSome := by
  obtain ⟨m,hm⟩ := Option.isSome_iff_exists.mp (growPast_isSome hn h)
  unfold Node.write
  split_ifs
  · rfl
  · rfl
  · simp [uadd_of_lt hr,hm]

theorem exposed_between (hn : Owned n) {e e' i : Nat} (hi : i < e) (he : e ≤ e') :
    n.exposed e i = n.exposed e' i := by
  unfold Node.exposed
  by_cases h : n.data.capacity < e
  · rw [if_pos h,if_pos (h.trans_le he)]
  rw [if_neg h]
  split_ifs with h' h0
  · have := hn.null.mp h0
    omega
  · have hup := hn.upper h0
    have hnext := n.heap.next_bounds.1
    rw [Nat.mod_eq_of_lt (by omega)]
  · rfl

theorem Taken.trans {n₁ n₂ : Node} {e e' : Nat} (hn : Owned n) (h₁ : Owned n₁) (h₂ : Owned n₂)
    (he : e ≤ e') (h : Taken n n₁ e) (h' : Taken n₁ n₂ e') :
    Room n e' ∧ ∀ m, Taken n m e' → m.data.capacity = n₂.data.capacity := by
  by_cases hcap : e' ≤ n.data.capacity
  · refine ⟨.inl hcap,?_⟩
    rintro m (⟨-,hm,-⟩ | ⟨hlt,-⟩)
    · obtain ⟨-,hc,-⟩ | ⟨hlt,-⟩ := h
      · obtain ⟨-,hc',-⟩ | ⟨hlt,-⟩ := h'
        · omega
        · omega
      · omega
    · omega
  have hge : e' ≤ n₂.data.capacity := by
    obtain ⟨hle,hc,-⟩ | ⟨-,hc,-⟩ := h'
    · omega
    · exact (growCapacity_spec hc h₁.shape).1
  have hsome := (growCapacity_isSome hn.shape).mpr (hge.trans h₂.shape.le)
  obtain ⟨c,hc⟩ := Option.isSome_iff_exists.mp hsome
  obtain ⟨hle,hq⟩ := growCapacity_spec hc hn.shape
  have heq : c = n₂.data.capacity := by
    apply Nat.le_antisymm (growCapacity_least hc hn.shape (by omega) h₂.shape hge).1
    obtain ⟨hle₂,hc₂,-⟩ | ⟨hlt₂,hc₂,-⟩ := h'
    · obtain ⟨-,hc₁,-⟩ | ⟨hlt₁,hc₁,-⟩ := h
      · omega
      · rw [hc₂]
        exact (growCapacity_least hc₁ hn.shape hlt₁ hq (he.trans hle)).1
    · exact (growCapacity_least hc₂ h₁.shape hlt₂ hq hle).1
  subst heq
  refine ⟨.inr ⟨_,hc,?_⟩,?_⟩
  · have ht := top_eq n
    have ht₁ := top_eq n₁
    obtain ⟨hle₂,hc₂,hp₂⟩ | ⟨hlt₂,hc₂,hp₂,hfit₂⟩ := h'
    · obtain ⟨-,hc₁,-⟩ | ⟨-,-,hp₁,hfit₁⟩ := h
      · omega
      · omega
    · obtain ⟨-,-,hp₁⟩ | ⟨-,-,hp₁,-⟩ := h
      · omega
      · omega
  · rintro m (⟨hle',-⟩ | ⟨-,hm,-⟩)
    · omega
    · exact Option.some.inj (hm.symm.trans hc)

end Growth

section Write

variable {n n₁ n₂ n' m : Node} {buf buf' : List UInt8} {bufs : List (List UInt8)}
variable {offset transferred capacity : Nat} {ret ret' : Except Errno Nat}

def SameFile (m n : Node) : Prop :=
  m.contents = n.contents ∧ m.data.capacity = n.data.capacity

theorem write_append_contents (hn : Owned n) (hb : buf ≠ []) (hb' : buf' ≠ [])
    (hr : offset + (buf ++ buf').length < 2 ^ 64) (h : n.write buf offset = some (n₁,ret))
    (h' : n₁.write buf' (offset + buf.length) = some (n₂,ret'))
    (hm : n.write (buf ++ buf') offset = some (m,.ok (buf ++ buf').length)) :
    m.contents = n₂.contents := by
  have hne : buf ++ buf' ≠ [] := by simp [hb]
  have hlen : (buf ++ buf').length = buf.length + buf'.length := List.length_append
  have hpos : 0 < buf'.length := List.length_pos_iff.mpr hb'
  obtain ⟨h₁,hs₁,hbytes₁⟩ := Node.write_spec hn hb (by omega) h
  obtain ⟨h₂,hs₂,hbytes₂⟩ := Node.write_spec h₁ hb' (by omega) h'
  obtain ⟨-,hs,hbytes⟩ := Node.write_spec hn hne hr hm
  have hsize : m.data.size = n₂.data.size := by omega
  refine ZeroExtended.ext hsize ?_
  intro i
  simp only [Node.contents]
  rw [← hsize]
  split_ifs with hi
  · rw [hbytes i hi,hbytes₂ i (hsize ▸ hi)]
    by_cases hin' : offset + buf.length ≤ i ∧ i < offset + buf.length + buf'.length
    · rw [if_pos hin',if_pos (by omega),List.getD_append_right _ _ _ _ (by omega)]
      congr 1
      omega
    have hi₁ : i < n₁.data.size := by omega
    rw [if_neg hin',Node.exposed_kept h₁ hi₁,hbytes₁ i hi₁]
    by_cases hin : offset ≤ i ∧ i < offset + buf.length
    · rw [if_pos hin,if_pos (by omega),List.getD_append _ _ _ _ (by omega)]
    · rw [if_neg hin,if_neg (by omega)]
      by_cases hold : i < n.data.size
      · rw [Node.exposed_kept hn hold,Node.exposed_kept hn hold]
      · exact (exposed_between hn (by omega) (by omega)).symm
  · rfl

theorem write_append (hn : Owned n) (hb : buf ≠ []) (hb' : buf' ≠ [])
    (hr : offset + (buf ++ buf').length < 2 ^ 64) (h : n.write buf offset = some (n₁,ret))
    (h' : n₁.write buf' (offset + buf.length) = some (n₂,ret')) :
    ∃ m, n.write (buf ++ buf') offset = some (m,.ok (buf ++ buf').length) ∧ SameFile m n₂ := by
  have hne : buf ++ buf' ≠ [] := by simp [hb]
  have hlen : (buf ++ buf').length = buf.length + buf'.length := List.length_append
  have h₁ := (Node.write_spec hn hb (by omega) h).1
  have h₂ := (Node.write_spec h₁ hb' (by omega) h').1
  have ht := (write_taken hn hb (by omega) h).1
  have ht' := (write_taken h₁ hb' (by omega) h').1
  rw [Nat.add_assoc,← hlen] at ht'
  obtain ⟨hroom,hcap⟩ := ht.trans hn h₁ h₂ (by omega) ht'
  obtain ⟨⟨m,r⟩,hm⟩ := Option.isSome_iff_exists.mp (write_isSome hn hr hroom)
  obtain ⟨htm,rfl⟩ := write_taken hn hne hr hm
  exact ⟨m,hm,write_append_contents hn hb hb' hr h h' hm,hcap m htm⟩

theorem writevFrom_flat (hn : Owned n) (hr : offset + bufs.flatten.length < 2 ^ 64)
    (h : n.writevFrom transferred offset bufs = some (n',ret)) :
    ret = .ok (transferred + bufs.flatten.length) ∧
      ∃ m, n.write bufs.flatten offset = some (m,.ok bufs.flatten.length) ∧ SameFile m n' := by
  induction bufs generalizing n transferred offset with
  | nil =>
    rw [Node.writevFrom] at h
    cases h
    refine ⟨rfl,n',?_,rfl,rfl⟩
    simp [Node.write,hn.regular]
  | cons buf bufs ih =>
    rw [List.flatten_cons,List.length_append] at *
    rw [Node.writevFrom] at h
    by_cases h0 : buf.length = 0
    · rw [if_pos h0] at h
      obtain rfl := List.length_eq_zero_iff.mp h0
      rw [List.nil_append,List.length_nil,Nat.zero_add] at *
      exact ih hn hr h
    rw [if_neg h0] at h
    have hb : buf ≠ [] := fun he => h0 (he ▸ rfl)
    simp only [Option.bind_eq_some_iff] at h
    obtain ⟨⟨n₁,r⟩,h₁,h⟩ := h
    obtain ⟨-,rfl⟩ := write_taken hn hb (by omega) h₁
    have ho := (Node.write_spec hn hb (by omega) h₁).1
    simp only [Nat.lt_irrefl,if_false] at h
    rw [uadd_of_lt (by omega)] at h
    obtain ⟨rfl,m₁,hm₁,hsame₁⟩ := ih ho (by omega) h
    refine ⟨by rw [Nat.add_assoc],?_⟩
    by_cases hrest : bufs.flatten = []
    · rw [hrest] at hm₁ ⊢
      rw [Node.write,if_neg ho.regular,if_pos List.length_nil] at hm₁
      cases hm₁
      rw [List.append_nil]
      exact ⟨n₁,h₁,hsame₁⟩
    · obtain ⟨m,hm,hsame⟩ := write_append hn hb hrest (by rw [List.length_append]; omega) h₁ hm₁
      rw [List.length_append] at hm
      exact ⟨m,hm,hsame.1.trans hsame₁.1,hsame.2.trans hsame₁.2⟩

def slack (capacity : Nat) : Nat :=
  if capacity = 0 then 34 else if capacity = 1 then 20 else if capacity < 16 then 7 else 0

def Roomy (n : Node) (capacity : Nat) : Prop :=
  n.data.capacity < capacity →
    n.heap.allocPtr + 2 * (capacity - n.data.capacity) + slack n.data.capacity < heapSize

theorem slack_step {c c' : Nat} (hc : Quadruple c) (h : max 1 (4 * c) ≤ c') :
    15 + 2 * c + slack c' ≤ c' + slack c := by
  have hshape : c = 0 ∨ c = 1 ∨ c = 4 ∨ 16 ≤ c := by
    obtain rfl | ⟨k,-,rfl⟩ := hc
    · exact .inl rfl
    · match k with
      | 0 => exact .inr (.inl rfl)
      | 1 => exact .inr (.inr (.inl rfl))
      | k + 2 =>
        have := Nat.one_le_pow k 4 (by decide)
        exact .inr (.inr (.inr (by rw [Nat.pow_add]; omega)))
  unfold slack
  split_ifs <;> omega

theorem Roomy.room {length : Nat} (hn : Owned n) (hroom : Roomy n capacity)
    (hq : Quadruple capacity) (hle : length ≤ capacity) : Room n length := by
  by_cases hcap : length ≤ n.data.capacity
  · exact .inl hcap
  have hsome := (growCapacity_isSome hn.shape).mpr (hle.trans hq.le)
  obtain ⟨c,hc⟩ := Option.isSome_iff_exists.mp hsome
  obtain ⟨hc',hmul⟩ := growCapacity_least hc hn.shape (by omega) hq hle
  have hfit := hroom (by omega)
  have htop := top_eq n
  have hslack := slack_step hn.shape hmul
  exact .inr ⟨c,hc,by omega⟩

theorem Roomy.step {length : Nat} (hn : Owned n) (hroom : Roomy n capacity)
    (hq : Quadruple capacity) (hle : length ≤ capacity) (h : Taken n n₁ length) :
    Roomy n₁ capacity := by
  intro hlt
  obtain ⟨hcap,hc,hp⟩ | ⟨hcap,hc,hp,-⟩ := h
  · rw [hc,hp]
    exact hroom (by omega)
  · obtain ⟨-,hmul⟩ := growCapacity_least hc hn.shape hcap hq hle
    have hfit := hroom (by omega)
    have htop := top_eq n
    have hslack := slack_step hn.shape hmul
    omega

theorem writevFrom_isSome (hn : Owned n) (hr : offset + bufs.flatten.length < 2 ^ 64)
    (hq : Quadruple capacity) (hroom : Roomy n capacity)
    (hle : bufs.flatten ≠ [] → offset + bufs.flatten.length ≤ capacity) :
    (n.writevFrom transferred offset bufs).isSome := by
  induction bufs generalizing n transferred offset with
  | nil => rfl
  | cons buf bufs ih =>
    rw [List.flatten_cons,List.length_append] at *
    rw [Node.writevFrom]
    by_cases h0 : buf.length = 0
    · rw [if_pos h0]
      obtain rfl := List.length_eq_zero_iff.mp h0
      rw [List.nil_append,List.length_nil,Nat.zero_add] at *
      exact ih hn hr hroom hle
    rw [if_neg h0]
    have hb : buf ≠ [] := fun he => h0 (he ▸ rfl)
    have hend := hle (by simp [hb])
    obtain ⟨⟨n₁,r⟩,h₁⟩ := Option.isSome_iff_exists.mp
      (write_isSome hn (by omega) (hroom.room hn hq (by omega : offset + buf.length ≤ capacity)))
    obtain ⟨ht,rfl⟩ := write_taken hn hb (by omega) h₁
    have ho := (Node.write_spec hn hb (by omega) h₁).1
    rw [h₁,Option.bind_some]
    simp only [Nat.lt_irrefl,if_false]
    rw [uadd_of_lt (by omega)]
    exact ih ho (by omega) (hroom.step hn hq (by omega) ht) fun _ => by omega

end Write

theorem runs_owned {n n' : Node} {ops : List Op} (hn : Owned n)
    (hops : ∀ op ∈ ops, op.Representable) (hrun : Runs Step n ops n') : Owned n' := by
  induction ops generalizing n with
  | nil =>
    cases hrun
    exact hn
  | cons op ops ih =>
    obtain ⟨u,hstep,hrun⟩ := hrun
    have hu := (step_contents hn (hops op List.mem_cons_self) hstep).1
    exact ih hu (fun o ho => hops o (List.mem_cons_of_mem _ ho)) hrun

theorem vectored_io {heap : Bump} {ops : List Op} {n : Node}
    (hops : ∀ op ∈ ops, op.Representable) (hrun : Runs Step (fresh heap) ops n) (offset : Nat) :
    (∀ lens : List Nat, lens.sum < 2 ^ 63 → n.readv lens offset =
        (n.read lens.sum offset).map fun bytes => (bytes.length,laidOut lens bytes)) ∧
      ∀ bufs : List (List UInt8), offset + bufs.flatten.length < 2 ^ 64 →
        (∀ n' ret, n.writev bufs offset = some (n',ret) →
          ∃ m, n.write bufs.flatten offset = some (m,ret) ∧ SameFile m n') ∧
        ∀ m ret, n.write bufs.flatten offset = some (m,ret) → Roomy n m.data.capacity →
          ∃ n', n.writev bufs offset = some (n',ret) ∧ SameFile m n' := by
  have hn := runs_owned (fresh_owned heap) hops hrun
  constructor
  · intro lens hl
    rw [Node.readv,readvFrom_eq hn 0 hl,read_eq hn hl,Nat.zero_add]
    rfl
  intro bufs hr
  constructor
  · intro n' ret h
    obtain ⟨rfl,hm⟩ := writevFrom_flat hn hr h
    rwa [Nat.zero_add]
  · intro m ret hm hroom
    have hq := write_shape hn.shape hm
    have hle : bufs.flatten ≠ [] → offset + bufs.flatten.length ≤ m.data.capacity := by
      intro hb
      obtain ⟨hle,hc,-⟩ | ⟨-,hc,-⟩ := (write_taken hn hb hr hm).1
      · exact hc ▸ hle
      · exact (growCapacity_spec hc hn.shape).1
    obtain ⟨⟨n',r⟩,h⟩ := Option.isSome_iff_exists.mp (writevFrom_isSome hn hr hq hroom hle)
    obtain ⟨rfl,m',hm',hsame⟩ := writevFrom_flat hn hr h
    cases hm.symm.trans hm'
    refine ⟨n',?_,hsame⟩
    rw [Nat.zero_add] at h
    exact h

def overwritten : Node × Except Errno Nat := (regrown.1.write [5,6,7] 1).get (by decide +kernel)

theorem vectored_io_regrown : Runs Step (fresh zeroHeap) rewritten regrown.1 ∧
    regrown.1.readv [1,0,2] 0 = .ok (1,[[97],[],[]]) ∧
      ∃ n', regrown.1.writev [[5],[],[6,7]] 1 = some (n',.ok 3) ∧ SameFile overwritten.1 n' := by
  have hops : ∀ op ∈ rewritten, op.Representable := by decide
  have hread := (vectored_io hops regrown_runs 0).1 [1,0,2] (by decide)
  have hwrite := (vectored_io hops regrown_runs 1).2 [[5],[],[6,7]] (by decide)
  have hm : regrown.1.write [5,6,7] 1 = some (overwritten.1,overwritten.2) :=
    (Option.some_get (by decide +kernel)).symm
  have hroom : Roomy regrown.1 overwritten.1.data.capacity := by
    unfold Roomy
    decide +kernel
  have hret : overwritten.2 = .ok 3 := by decide +kernel
  obtain ⟨n',h,hsame⟩ := hwrite.2 _ _ hm hroom
  rw [hret] at h
  refine ⟨regrown_runs,?_,n',h,hsame⟩
  rw [hread]
  decide +kernel

def lastBlock : Bump := { zeroHeap with allocPtr := 0x2FFFFFFF0, inside := by decide }

theorem writev_exhausts_heap :
    ¬∀ (heap : Bump) (ops : List Op) (n : Node), Runs Step (fresh heap) ops n →
      ∀ (bufs : List (List UInt8)) (offset : Nat), bufs.flatten.length < 2 ^ 63 →
        ∀ m ret, n.write bufs.flatten offset = some (m,ret) →
          ∃ n', n.writev bufs offset = some (n',ret) ∧ SameFile m n' := by
  intro h
  have hw : ((fresh lastBlock).write [[1],[2]].flatten 0).isSome := by decide +kernel
  obtain ⟨⟨m,ret⟩,hm⟩ := Option.isSome_iff_exists.mp hw
  obtain ⟨n',hn',-⟩ := h lastBlock [] _ rfl [[1],[2]] 0 (by decide) m ret hm
  have hnone : ((fresh lastBlock).writev [[1],[2]] 0).isNone := by decide +kernel
  rw [hn'] at hnone
  cases hnone

end SabaOS.Fs.Tmpfs
