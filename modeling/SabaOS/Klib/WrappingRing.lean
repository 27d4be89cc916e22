import SabaOS.Klib.RingBuffer

namespace SabaOS.Klib.RingBuffer

variable {α : Type} {size : Nat}

def queue (r : RingBuffer α size) : List α :=
  (List.range r.dataCount).map fun i => r.data ((r.readIndex + i) % size)

structure Wrapping (r : RingBuffer α size) : Prop where
  size_pos : 0 < size
  size_lt : size < 2 ^ 64
  divides : size ∣ 2 ^ 64
  read_lt : r.readIndex < 2 ^ 64
  write_lt : r.writeIndex < 2 ^ 64
  count_le : r.dataCount ≤ size

variable {r : RingBuffer α size}

@[simp] theorem queue_length : r.queue.length = r.dataCount := by
  simp [queue]

theorem isEmpty_iff_queue : r.isEmpty = true ↔ r.queue = [] := by
  rw [← List.length_eq_zero_iff,queue_length,isEmpty,decide_eq_true_eq]

namespace Wrapping

variable (hr : r.Wrapping)

include hr

theorem freeCount_eq : r.freeCount = size - r.dataCount := usub_of_le hr.size_lt hr.count_le

theorem index_mod (a i : Nat) : (a % 2 ^ 64 + i) % size = (a + i) % size := by
  rw [Nat.add_mod,Nat.mod_mod_of_dvd _ hr.divides,← Nat.add_mod]

theorem write_mod (k : Nat) : (r.writeIndex + k) % size = (r.readIndex + r.dataCount + k) % size := by
  have hend : r.writeIndex = (r.readIndex + r.dataCount) % 2 ^ 64 := by
    have hread := hr.read_lt
    have hwrite := hr.write_lt
    simp only [dataCount,usub]
    omega
  rw [hend,hr.index_mod]

theorem dataCount_advance {c : Nat} (hc : c ≤ r.dataCount) (data : Nat → α) :
    dataCount (⟨uadd r.readIndex c,r.writeIndex,data⟩ : RingBuffer α size) = r.dataCount - c := by
  have hread := hr.read_lt
  have hwrite := hr.write_lt
  simp only [dataCount,usub,uadd] at hc ⊢
  omega

theorem dataCount_grow {c : Nat} (hc : r.dataCount + c ≤ size) (data : Nat → α) :
    dataCount (⟨r.readIndex,uadd r.writeIndex c,data⟩ : RingBuffer α size) = r.dataCount + c := by
  have hread := hr.read_lt
  have hwrite := hr.write_lt
  have hsize := hr.size_lt
  simp only [dataCount,usub,uadd] at hc ⊢
  omega

theorem read_spec (count : Nat) :
    (r.read count).2 = r.queue.take count ∧ (r.read count).1.queue = r.queue.drop count ∧
      (r.read count).1.Wrapping := by
  have htake : r.queue.take (min count r.dataCount) = r.queue.take count := by
    rw [List.take_eq_take_iff,queue_length]
    omega
  have hdrop : r.queue.drop (min count r.dataCount) = r.queue.drop count := by
    rcases Nat.le_total count r.dataCount with h | h
    · rw [Nat.min_eq_left h]
    · rw [Nat.min_eq_right h,List.drop_eq_nil_of_le queue_length.le,
        List.drop_eq_nil_of_le (queue_length.le.trans h)]
  have hle : min count r.dataCount ≤ r.dataCount := Nat.min_le_right _ _
  rw [read]
  dsimp only
  generalize min count r.dataCount = c at *
  by_cases h0 : c = 0
  · rw [if_pos h0]
    subst h0
    exact ⟨htake,hdrop,hr⟩
  · rw [if_neg h0]
    have hcount := hr.dataCount_advance hle r.data
    have hsize := hr.count_le
    rw [slices_eq r.data r.readIndex (hle.trans hsize) hr.size_pos]
    refine ⟨?_,?_,⟨hr.size_pos,hr.size_lt,hr.divides,uadd_lt _ _,hr.write_lt,?_⟩⟩
    · rw [← htake,queue,← List.map_take,List.take_range,Nat.min_eq_left hle]
    · rw [← hdrop,queue,hcount]
      apply List.ext_getElem
      · simp
      · intro i hi hi'
        simp only [queue,List.getElem_map,List.getElem_range,List.getElem_drop]
        rw [uadd,hr.index_mod,Nat.add_assoc]
    · dsimp only at hcount ⊢
      rw [hcount]
      omega

theorem write_spec (buf : List α) :
    (r.write buf).2 = min buf.length (size - r.dataCount) ∧
      (r.write buf).1.queue = r.queue ++ buf.take (r.write buf).2 ∧ (r.write buf).1.Wrapping := by
  have hret : (r.write buf).2 = min buf.length (size - r.dataCount) := by
    rw [← hr.freeCount_eq]
    rfl
  have hcl := hr.count_le
  have hbuf : (r.write buf).2 ≤ buf.length := by omega
  have hfits : r.dataCount + (r.write buf).2 ≤ size := by omega
  have hr' : (r.write buf).1 = ⟨r.readIndex,uadd r.writeIndex (r.write buf).2,
    stores r.data size r.writeIndex (r.write buf).2 buf⟩ := rfl
  refine ⟨hret,?_,?_⟩
  · rw [hr']
    generalize (r.write buf).2 = n at *
    rw [queue,hr.dataCount_grow hfits]
    apply List.ext_getElem
    · simp [Nat.min_eq_left hbuf]
    · intro i hi hi'
      simp only [List.length_map,List.length_range] at hi
      simp only [List.getElem_map,List.getElem_range]
      by_cases hold : i < r.dataCount
      · rw [List.getElem_append_left (by simpa using hold)]
        simp only [queue,List.getElem_map,List.getElem_range]
        apply stores_other (by omega) (Nat.mod_lt _ hr.size_pos)
        intro k hk heq
        have hlt : (r.readIndex + i) % size < size := Nat.mod_lt _ hr.size_pos
        have hmod := add_mod_cases (i := r.readIndex + i) (by omega : r.dataCount - i + k < size)
        rw [hr.write_mod,show r.readIndex + r.dataCount + k =
          r.readIndex + i + (r.dataCount - i + k) by omega] at heq
        rw [heq] at hmod
        split_ifs at hmod <;> omega
      · rw [List.getElem_append_right (by simpa using hold)]
        have hnew := stores_at r.data r.writeIndex (by omega : n ≤ size) hbuf
          (by omega : i - r.dataCount < n)
        rw [hr.write_mod,show r.readIndex + r.dataCount + (i - r.dataCount) = r.readIndex + i by omega,
          List.getElem?_eq_getElem (by omega)] at hnew
        simp only [queue_length,List.getElem_take]
        exact Option.some.inj hnew
  · rw [hr']
    refine ⟨hr.size_pos,hr.size_lt,hr.divides,hr.read_lt,uadd_lt _ _,?_⟩
    rw [hr.dataCount_grow hfits]
    exact hfits

theorem truncate_eq_read (count : Nat) : r.truncate count = (r.read count).1 := by
  rw [truncate,read]
  dsimp only
  by_cases h0 : min count r.dataCount = 0
  · rw [if_pos h0,h0,uadd,Nat.add_zero,Nat.mod_eq_of_lt hr.read_lt]
  · rw [if_neg h0]

theorem writeTruncate_spec (buf : List α) (hfit : buf.length ≤ size) :
    (r.writeTruncate buf).1.queue =
        (if r.dataCount + buf.length ≤ size then r.queue else r.queue.drop buf.length) ++ buf ∧
      (r.writeTruncate buf).1.Wrapping := by
  have hcount := hr.count_le
  rw [writeTruncate,hr.freeCount_eq]
  by_cases hroom : r.dataCount + buf.length ≤ size
  · rw [if_neg (by omega),if_pos hroom]
    obtain ⟨hn,hqueue,hwrapping⟩ := hr.write_spec buf
    refine ⟨?_,hwrapping⟩
    rw [hqueue,hn,Nat.min_eq_left (by omega),List.take_length]
  · rw [if_pos (by omega),if_neg hroom,hr.truncate_eq_read]
    obtain ⟨-,hleft,hwrapping⟩ := hr.read_spec buf.length
    have hlen : (r.read buf.length).1.dataCount = r.dataCount - buf.length := by
      rw [← queue_length,hleft,List.length_drop,queue_length]
    obtain ⟨hn,hqueue,hwrapping'⟩ := hwrapping.write_spec buf
    refine ⟨?_,hwrapping'⟩
    rw [hqueue,hn,hleft,Nat.min_eq_left (by omega),List.take_length]

end Wrapping

end SabaOS.Klib.RingBuffer
