import SabaOS.Mem.Overlap
import SabaOS.Lib.Ring

namespace SabaOS.Mem

open SabaOS.Lib

section Links

-- The list head is `none`, the range with the identity `id` is `some id`.
abbrev RangeLinks := Links (Option Nat)

-- The loop over `previous` and `next`, and the link that it ends at.
def insertionPoint (links : RangeLinks) (base : Nat → Nat) (newBase : Nat) :
    Nat → Option Nat → Option (Option Nat)
  | 0,_ => none
  | _ + 1,none => some none
  | fuel + 1,some previous => do
    let next ← (links (some previous)).next
    match next with
    | none => some (some previous)
    | some id =>
      if base id > newBase then some (some previous)
      else insertionPoint links base newBase fuel (some id)

def insertLink (links : RangeLinks) (base : Nat → Nat) (newBase new fuel : Nat) :
    Option RangeLinks := do
  let first ← (links none).next
  let previous ← insertionPoint links base newBase fuel first
  links.add previous (some new)

def rangeNodes (l : List MappedRange) : List (Option Nat) := l.map fun r => some r.id

variable {ls : RangeLinks} {base : Nat → Nat} {l pre : List MappedRange} {r : MappedRange}

theorem next_at {a : MappedRange} (hr : Links.Ring ls none (rangeNodes (pre ++ a :: l))) :
    (ls (some a.id)).next = some (l.head?.map MappedRange.id) := by
  rw [rangeNodes,List.map_append,List.map_cons] at hr
  rw [(Links.Path.append_iff.mp hr.path).2.next_eq]
  cases l with
  | nil => rfl
  | cons b l => rfl

theorem insertionPoint_spec {a : MappedRange} (fuel : Nat) (hf : l.length < fuel)
    (hr : Links.Ring ls none (rangeNodes (pre ++ a :: l))) (hb : ∀ b ∈ l, base b.id = b.base) :
    ∃ us y vs, a :: l = us ++ y :: vs ∧ linkRange (a :: l) r = us ++ y :: r :: vs ∧
      insertionPoint ls base r.base fuel (some a.id) = some (some y.id) := by
  induction l generalizing pre a fuel with
  | nil =>
    obtain ⟨fuel,rfl⟩ := Nat.exists_eq_add_of_lt hf
    refine ⟨[],a,[],rfl,rfl,?_⟩
    simp [insertionPoint,next_at hr]
  | cons b l ih =>
    obtain ⟨fuel,rfl⟩ : ∃ k, fuel = k + 1 := ⟨fuel - 1,by omega⟩
    have hnext := next_at hr
    have hbase := hb b List.mem_cons_self
    rw [insertionPoint,hnext]
    dsimp only [List.head?_cons,Option.map_some,Option.bind_eq_bind,Option.bind_some]
    rw [linkRange,hbase]
    by_cases hgt : b.base > r.base
    · rw [if_pos hgt,if_pos hgt]
      exact ⟨[],a,b :: l,rfl,rfl,rfl⟩
    · rw [if_neg hgt,if_neg hgt]
      have hr' : Links.Ring ls none (rangeNodes ((pre ++ [a]) ++ b :: l)) := by simpa using hr
      simp only [List.length_cons] at hf
      obtain ⟨us,y,vs,hsplit,hlink,hpoint⟩ :=
        ih fuel (by omega) hr' fun c hc => hb c (List.mem_cons_of_mem _ hc)
      refine ⟨a :: us,y,vs,?_,?_,hpoint⟩
      · rw [hsplit,List.cons_append]
      · rw [hlink,List.cons_append]

theorem insertLink_spec {fuel : Nat} (hf : l.length < fuel) (hr : Links.Ring ls none (rangeNodes l))
    (hb : ∀ b ∈ l, base b.id = b.base) (hid : r.id ∉ l.map MappedRange.id) :
    ∃ ls', insertLink ls base r.base r.id fuel = some ls' ∧
      Links.Ring ls' none (rangeNodes (linkRange l r)) := by
  have hnew : some r.id ∉ none :: rangeNodes l := by
    simpa [rangeNodes] using hid
  cases l with
  | nil =>
    obtain ⟨fuel,rfl⟩ : ∃ k, fuel = k + 1 := ⟨fuel - 1,by omega⟩
    obtain ⟨ls',hadd,hr',-⟩ := hr.add hnew
    have hfirst : (ls none).next = some none := hr.path.1
    refine ⟨ls',?_,hr'⟩
    simp [insertLink,hfirst,insertionPoint,hadd]
  | cons a l =>
    have hfirst : (ls none).next = some (some a.id) := hr.path.1.1
    simp only [List.length_cons] at hf
    have hr₀ : Links.Ring ls none (rangeNodes ([] ++ a :: l)) := hr
    obtain ⟨us,y,vs,hsplit,hlink,hpoint⟩ := insertionPoint_spec (r := r) fuel (by omega) hr₀
      fun b hm => hb b (List.mem_cons_of_mem _ hm)
    rw [hsplit,rangeNodes,List.map_append,List.map_cons] at hr hnew
    obtain ⟨ls',hadd,hr'⟩ := hr.add_at hnew
    refine ⟨ls',?_,?_⟩
    · simp only [insertLink,hfirst,Option.bind_eq_bind,Option.bind_some,hpoint]
      exact hadd
    · rw [hlink]
      simpa [rangeNodes] using hr'

def Sorted (l : List MappedRange) : Prop := l.Pairwise fun a b => a.base ≤ b.base

theorem linkRange_sorted {a : MappedRange} (hs : Sorted (a :: l)) (ha : a.base ≤ r.base) :
    Sorted (linkRange (a :: l) r) := by
  induction l generalizing a with
  | nil => simpa [Sorted,linkRange] using ha
  | cons b l ih =>
    obtain ⟨hall,htail⟩ := List.pairwise_cons.mp hs
    rw [linkRange]
    split_ifs with hgt
    · refine List.pairwise_cons.mpr ⟨?_,List.pairwise_cons.mpr ⟨?_,htail⟩⟩
      · intro c hc
        rcases List.mem_cons.mp hc with rfl | hc
        · exact ha
        · exact hall c hc
      · intro c hc
        rcases List.mem_cons.mp hc with rfl | hc
        · omega
        · have hbc := (List.pairwise_cons.mp htail).1 c hc
          omega
    · refine List.pairwise_cons.mpr ⟨?_,ih htail (by omega)⟩
      intro c hc
      rcases List.mem_cons.mp ((linkRange_perm _ _).mem_iff.mp hc) with rfl | hc
      · exact ha
      · exact hall c hc

theorem linkRange_head {a : MappedRange} : ∃ rest, linkRange (a :: l) r = a :: rest ∧ r ∈ rest := by
  cases l with
  | nil => exact ⟨[r],rfl,by simp⟩
  | cons b l =>
    rw [linkRange]
    split_ifs
    · exact ⟨_,rfl,by simp⟩
    · exact ⟨_,rfl,(linkRange_perm _ _).mem_iff.mpr (by simp)⟩

def Inserts (ls : RangeLinks) (base : Nat → Nat) (l : List MappedRange) (r : MappedRange) : Prop :=
  ∃ ls' l', insertLink ls base r.base r.id (l.length + 1) = some ls' ∧
    Links.Ring ls' none (rangeNodes l') ∧ l'.Perm (r :: l) ∧ Sorted l'

theorem eq_of_links {l' l'' : List MappedRange} (hp' : l'.Perm l) (hp'' : l''.Perm l)
    (hid : (l.map MappedRange.id).Nodup) (h : rangeNodes l' = rangeNodes l'') : l' = l'' := by
  have hinj := List.inj_on_of_nodup_map hid
  refine List.ext_getElem (hp'.length_eq.trans hp''.length_eq.symm) fun i hi hi' => ?_
  have hget := List.getElem_of_eq h (by simpa [rangeNodes] using hi)
  simp only [rangeNodes,List.getElem_map,Option.some.injEq] at hget
  exact hinj (hp'.mem_iff.mp (List.getElem_mem hi)) (hp''.mem_iff.mp (List.getElem_mem hi')) hget

theorem Inserts.sorted (h : Inserts ls base l r) (hr : Links.Ring ls none (rangeNodes l))
    (hb : ∀ b ∈ l, base b.id = b.base) (hid : r.id ∉ l.map MappedRange.id) :
    Sorted (linkRange l r) := by
  obtain ⟨ls',l',hins',hring,hperm,hsorted⟩ := h
  obtain ⟨ls'',hins,hr'⟩ := insertLink_spec (Nat.lt_succ_self l.length) hr hb hid
  cases hins.symm.trans hins'
  have hnodup : (l.map MappedRange.id).Nodup := by
    have hsome := (List.nodup_cons.mp hr.nodup).2
    rw [rangeNodes,← Function.comp_def,← List.map_map] at hsome
    exact List.Nodup.of_map _ hsome
  have hids : ((r :: l).map MappedRange.id).Nodup := List.nodup_cons.mpr ⟨hid,hnodup⟩
  obtain rfl := eq_of_links hperm (linkRange_perm l r) hids (hring.unique hr')
  exact hsorted

theorem head_le_of_sorted (h : Sorted (linkRange l r)) (first : MappedRange)
    (hfirst : l.head? = some first) : first.base ≤ r.base := by
  cases l with
  | nil => cases hfirst
  | cons a l =>
    cases hfirst
    obtain ⟨rest,heq,hmem⟩ := @linkRange_head l r first
    rw [heq] at h
    exact (List.pairwise_cons.mp h).1 r hmem

theorem range_insertion_iff (hr : Links.Ring ls none (rangeNodes l)) (hb : ∀ b ∈ l, base b.id = b.base)
    (hid : r.id ∉ l.map MappedRange.id) (hs : Sorted l) :
    Inserts ls base l r ↔ ∀ first, l.head? = some first → first.base ≤ r.base := by
  constructor
  · exact fun h => head_le_of_sorted (h.sorted hr hb hid)
  · intro hfirst
    obtain ⟨ls',hins,hr'⟩ := insertLink_spec (Nat.lt_succ_self l.length) hr hb hid
    refine ⟨ls',linkRange l r,hins,hr',linkRange_perm l r,?_⟩
    cases l with
    | nil => exact List.pairwise_singleton _ _
    | cons a l => exact linkRange_sorted hs (hfirst a rfl)

def rangeAt (id base : Nat) : MappedRange := ⟨id,base,base,0x1000,0,.anonymous,0,none,0⟩

def oneLinked : RangeLinks
  | none => ⟨some (some 0),some (some 0)⟩
  | some _ => ⟨some none,some none⟩

theorem oneLinked_ring : Links.Ring oneLinked none (rangeNodes [rangeAt 0 0x2000]) :=
  ⟨⟨⟨rfl,rfl⟩,rfl,rfl⟩,by simp [rangeNodes]⟩

theorem range_insertion_after :
    Inserts oneLinked (fun _ => 0x2000) [rangeAt 0 0x2000] (rangeAt 1 0x3000) := by
  refine (range_insertion_iff oneLinked_ring (by decide) (by decide) (by simp [Sorted])).mpr ?_
  rintro first hfirst
  cases hfirst
  decide

theorem range_insertion_front :
    Links.Ring oneLinked none (rangeNodes [rangeAt 0 0x2000]) ∧
      ¬Inserts oneLinked (fun _ => 0x2000) [rangeAt 0 0x2000] (rangeAt 1 0x1000) := by
  refine ⟨oneLinked_ring,fun h => ?_⟩
  have hle := head_le_of_sorted (h.sorted oneLinked_ring (by decide) (by decide)) _ rfl
  revert hle
  decide

end Links

end SabaOS.Mem
