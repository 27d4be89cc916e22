import Mathlib.Data.Set.Basic
import Mathlib.Data.List.Pairwise

namespace SabaOS.Lib

open Classical

variable {ι α : Type}

structure Layer (ι α : Type) (blank : α) where
  area : Set ι
  part : Set ι
  paint : ι → α
  inside : part ⊆ area
  rest : ∀ a ∉ part, paint a = blank

namespace Layer

variable {blank : α} {x y : Layer ι α blank} {below above : List (Layer ι α blank)} {m : ι → α} {a : ι}

noncomputable def put (m : ι → α) (x : Layer ι α blank) : ι → α := fun a =>
  if a ∈ x.area then x.paint a else m a

noncomputable def stack (m : ι → α) (layers : List (Layer ι α blank)) : ι → α := layers.foldl put m

theorem put_of_mem (h : a ∈ x.area) : put m x a = x.paint a := if_pos h

theorem put_of_notMem (h : a ∉ x.area) : put m x a = m a := if_neg h

theorem stack_cons (m : ι → α) (x : Layer ι α blank) (above : List (Layer ι α blank)) :
    stack m (x :: above) = stack (put m x) above := rfl

theorem stack_uncovered (h : ∀ y ∈ above, a ∉ y.area) : stack m above a = m a := by
  induction above generalizing m with
  | nil => rfl
  | cons y above ih =>
    obtain ⟨hy,habove⟩ := List.forall_mem_cons.mp h
    calc stack (put m y) above a = put m y a := ih habove
      _ = m a := put_of_notMem hy

theorem stack_blank (hown : ∀ y ∈ above, a ∉ y.part) (h : m a = blank ∨ ∃ y ∈ above, a ∈ y.area) :
    stack m above a = blank := by
  induction above generalizing m with
  | nil => exact h.resolve_right (by simp)
  | cons y above ih =>
    obtain ⟨hy,habove⟩ := List.forall_mem_cons.mp hown
    refine ih habove ?_
    rcases Classical.em (a ∈ y.area) with ha | ha
    · left
      rw [put_of_mem ha,y.rest a hy]
    · rw [put_of_notMem ha]
      refine h.imp_right ?_
      rintro ⟨z,hz,haz⟩
      rcases List.mem_cons.mp hz with rfl | hz
      · exact absurd haz ha
      · exact ⟨z,hz,haz⟩

def Shows (m : ι → α) (x : Layer ι α blank) : Prop := ∀ a ∈ x.part, m a = x.paint a

def Spares (x y : Layer ι α blank) : Prop := ∀ a ∈ x.part, a ∈ y.area → x.paint a = blank

def Apart (x y : Layer ι α blank) : Prop := ∀ a ∈ x.part, a ∉ y.part

theorem shows_iff (hdis : ∀ y ∈ above, Apart x y) :
    Shows (stack m (x :: above)) x ↔ ∀ y ∈ above, Spares x y := by
  rw [stack_cons]
  have hown : ∀ a ∈ x.part, ∀ y ∈ above, a ∉ y.part := fun a ha y hy => hdis y hy a ha
  constructor
  · intro h y hy a ha hay
    rw [← h a ha]
    exact stack_blank (hown a ha) (.inr ⟨y,hy,hay⟩)
  · intro h a ha
    have hput : put m x a = x.paint a := put_of_mem (x.inside ha)
    rcases Classical.em (∃ y ∈ above, a ∈ y.area) with hcov | hcov
    · obtain ⟨y,hy,hay⟩ := hcov
      rw [h y hy a ha hay]
      exact stack_blank (hown a ha) (.inr ⟨y,hy,hay⟩)
    · rw [← hput]
      exact stack_uncovered fun y hy hay => hcov ⟨y,hy,hay⟩

theorem all_show_iff {layers : List (Layer ι α blank)}
    (hdis : layers.Pairwise Apart) :
    (∀ x ∈ layers, Shows (stack m layers) x) ↔ layers.Pairwise Spares := by
  induction layers generalizing m with
  | nil => simp
  | cons x layers ih =>
    obtain ⟨hx,hlayers⟩ := List.pairwise_cons.mp hdis
    rw [List.forall_mem_cons,List.pairwise_cons,shows_iff hx]
    exact and_congr_right fun _ => ih hlayers

end Layer

end SabaOS.Lib
