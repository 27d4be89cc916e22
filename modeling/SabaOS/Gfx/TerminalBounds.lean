import SabaOS.Gfx.Terminal
import SabaOS.Lib.Tracking

namespace SabaOS.Gfx.VirtualTerminal

open SabaOS.Lib

def Inside (s : VirtualTerminal) (a : Int × Int) : Prop :=
  0 ≤ a.1 ∧ a.1 < s.widthChars ∧ 0 ≤ a.2 ∧ a.2 < s.heightChars

structure Framed (s : VirtualTerminal) : Prop where
  oldCursor : s.Inside (s.oldCursorX,s.oldCursorY)
  csiArgIndex : 0 ≤ s.csiArgIndex ∧ s.csiArgIndex < maxCsiArgs
  accesses : ∀ a ∈ s.accesses, s.Inside a

structure Bounded (s : VirtualTerminal) : Prop extends Framed s where
  cursor : s.Inside (s.cursorX,s.cursorY)

def core (s : VirtualTerminal) : VirtualTerminal :=
  { s with buffer := fun _ => .of space defaultFgColor defaultBgColor, cursorNeedsUndrawing := false, accesses := [] }

def Cells (s t : VirtualTerminal) : Prop :=
  t.core = s.core ∧ ∀ a ∈ t.accesses, a ∈ s.accesses ∨ s.Inside a

section Cells

variable {s t u : VirtualTerminal} {x y newX newY : Int} {c : UInt8} {fg bg : UInt32} {a : Int × Int}
variable {is : List Int} {f : Int → VirtualTerminal → VirtualTerminal}

theorem core_eq {α : Type} {g : VirtualTerminal → α} (hg : ∀ s, g s.core = g s) (h : t.core = s.core) :
    g t = g s := by
  rw [← hg t,h,hg s]

theorem inside_core (h : t.core = s.core) : t.Inside a ↔ s.Inside a := by
  have hwidth : t.widthChars = s.widthChars := core_eq (fun _ => rfl) h
  have hheight : t.heightChars = s.heightChars := core_eq (fun _ => rfl) h
  rw [Inside,Inside,hwidth,hheight]

theorem Cells.refl : Cells s s := ⟨rfl,fun _ h => .inl h⟩

theorem Cells.trans (h : Cells s t) (h' : Cells t u) : Cells s u := by
  refine ⟨h'.1.trans h.1,?_⟩
  intro a ha
  rcases h'.2 a ha with ht | ht
  · exact h.2 a ht
  · exact .inr ((inside_core h.1).mp ht)

theorem Cells.width (h : Cells s t) : t.widthChars = s.widthChars := core_eq (fun _ => rfl) h.1

theorem Cells.height (h : Cells s t) : t.heightChars = s.heightChars := core_eq (fun _ => rfl) h.1

theorem Framed.cells (hs : s.Framed) (h : Cells s t) : t.Framed := by
  have hinside : ∀ {a}, s.Inside a → t.Inside a := fun ha => (inside_core h.1).mpr ha
  have hx : t.oldCursorX = s.oldCursorX := core_eq (fun _ => rfl) h.1
  have hy : t.oldCursorY = s.oldCursorY := core_eq (fun _ => rfl) h.1
  have hi : t.csiArgIndex = s.csiArgIndex := core_eq (fun _ => rfl) h.1
  refine ⟨?_,?_,?_⟩
  · rw [hx,hy]
    exact hinside hs.oldCursor
  · rw [hi]
    exact hs.csiArgIndex
  · intro a ha
    rcases h.2 a ha with ha | ha
    · exact hinside (hs.accesses a ha)
    · exact hinside ha

theorem Bounded.cells (hs : s.Bounded) (h : Cells s t) : t.Bounded := by
  refine ⟨hs.toFramed.cells h,?_⟩
  have hx : t.cursorX = s.cursorX := core_eq (fun _ => rfl) h.1
  have hy : t.cursorY = s.cursorY := core_eq (fun _ => rfl) h.1
  rw [hx,hy]
  exact (inside_core h.1).mpr hs.cursor

theorem cells_touch (h : s.Inside (x,y)) : Cells s (s.touch x y) := by
  refine ⟨rfl,?_⟩
  intro a ha
  rcases List.mem_cons.mp ha with rfl | ha
  · exact .inr h
  · exact .inl ha

theorem cells_setCharAt (h : s.Inside (x,y)) : Cells s (s.setCharAt x y c fg bg) := by
  unfold setCharAt
  dsimp only
  split_ifs
  · exact cells_touch h
  · exact ⟨rfl,(cells_touch h).2⟩

theorem cells_erase (h : s.Inside (x,y)) : Cells s (s.erase x y) := cells_setCharAt h

theorem cells_moveChar (h : s.Inside (x,y)) (hnew : s.Inside (newX,newY)) :
    Cells s (s.moveChar x y newX newY) := by
  have htouch := cells_touch h
  have hset : Cells (s.touch x y) ((s.touch x y).setCharAt newX newY (s.cell x y).c (s.cell x y).fg (s.cell x y).bg) :=
    cells_setCharAt hnew
  have hboth := htouch.trans hset
  exact hboth.trans (cells_erase ((inside_core hboth.1).mpr h))

theorem cells_each (h : ∀ i t, i ∈ is → Cells s t → Cells t (f i t)) : Cells s (each is f s) :=
  each_keeps (P := fun t => Cells s t) (fun i t hi ht => ht.trans (h i t hi ht)) .refl

theorem cells_grid {rows : List Int} (cell : Int → Int → VirtualTerminal → VirtualTerminal)
    (h : ∀ x y t, y ∈ rows → x ∈ up 0 s.widthChars → Cells s t → Cells t (cell y x t)) :
    Cells s (each rows (fun y t => each (up 0 t.widthChars) (cell y) t) s) := by
  refine cells_each fun y t hy ht => ?_
  rw [ht.width]
  exact cells_each fun x u hx hu => h x y u hy hx (ht.trans hu)

theorem redrawCursor_height : s.redrawCursor.heightChars = s.heightChars := by
  unfold redrawCursor
  dsimp only
  split_ifs <;> rfl

theorem cells_scrollCell (h : s.Inside (x,y)) (hbelow : s.Inside (x,y + 1)) : Cells s (scrollCell y x s) :=
  (cells_touch hbelow).trans (cells_setCharAt h)

theorem cells_scrollRows : Cells s (each (up 0 (s.heightChars - 1))
    (fun y t => each (up 0 t.widthChars) (scrollCell y) t) s) := by
  refine cells_grid scrollCell ?_
  intro x y t hy hx ht
  obtain ⟨hy0,hy1⟩ := mem_up.mp hy
  obtain ⟨hx0,hx1⟩ := mem_up.mp hx
  refine cells_scrollCell ((inside_core ht.1).mpr ?_) ((inside_core ht.1).mpr ?_)
  · exact ⟨hx0,hx1,hy0,by dsimp only; omega⟩
  · exact ⟨hx0,hx1,by dsimp only; omega,by dsimp only; omega⟩

theorem cells_lastRow (h : 0 < s.heightChars) :
    Cells s (each (up 0 s.widthChars) (fun x t => t.erase x (t.heightChars - 1)) s) := by
  refine cells_each ?_
  intro x t hx ht
  obtain ⟨hx0,hx1⟩ := mem_up.mp hx
  have hheight := ht.height
  refine cells_erase ((inside_core ht.1).mpr ⟨hx0,hx1,?_,?_⟩)
  · dsimp only
    omega
  · dsimp only
    omega

theorem cells_scroll (h : 0 < s.heightChars) : ∃ t, Cells s t ∧ s.scroll = { t with cursorNeedsUndrawing := true } := by
  have hrows := cells_scrollRows (s := s)
  refine ⟨_,hrows.trans (cells_lastRow ?_),rfl⟩
  rw [hrows.height]
  exact h

theorem cells_eraseWhere {p : Int → Int → Bool} : Cells s (s.eraseWhere p) := by
  unfold eraseWhere
  refine cells_grid (fun y x t => if p x y then t.erase x y else t) ?_
  intro x y t hy hx ht
  obtain ⟨hy0,hy1⟩ := mem_up.mp hy
  obtain ⟨hx0,hx1⟩ := mem_up.mp hx
  split_ifs
  · exact cells_erase ((inside_core ht.1).mpr ⟨hx0,hx1,hy0,hy1⟩)
  · exact .refl

theorem cells_redraw : Cells s.redrawCursor s.redraw := by
  refine cells_grid redrawCell ?_
  intro x y t hy hx ht
  obtain ⟨hy0,hy1⟩ := mem_up.mp hy
  obtain ⟨hx0,hx1⟩ := mem_up.mp hx
  have hheight : y < s.redrawCursor.heightChars := by rwa [redrawCursor_height]
  have hinside : t.Inside (x,y) := (inside_core ht.1).mpr ⟨hx0,hx1,hy0,hheight⟩
  exact (cells_touch hinside).trans (cells_setCharAt hinside)

theorem cells_eraseDisplay {n : Int} : Cells s (s.eraseDisplay n) := by
  unfold eraseDisplay
  dsimp only
  split_ifs
  · exact cells_eraseWhere
  · exact cells_eraseWhere
  · exact cells_eraseWhere
  · exact .refl

theorem cells_eraseRow (h : s.Bounded) (his : ∀ x ∈ is, 0 ≤ x ∧ x < s.widthChars) :
    Cells s (each is (fun x t => t.erase x s.cursorY) s) := by
  refine cells_each fun x t hx ht => cells_erase ((inside_core ht.1).mpr ?_)
  obtain ⟨hx0,hx1⟩ := his x hx
  exact ⟨hx0,hx1,h.cursor.2.2⟩

theorem cells_eraseLine (h : s.Bounded) {n : Int} : Cells s (s.eraseLine n) := by
  obtain ⟨hc0,hc1,-⟩ := h.cursor
  dsimp only at hc0 hc1
  unfold eraseLine
  dsimp only
  split_ifs
  · refine cells_eraseRow h fun x hx => ?_
    have hmem := mem_up.mp hx
    omega
  · refine cells_eraseRow h fun x hx => ?_
    have hmem := mem_down.mp hx
    omega
  · exact cells_eraseRow h fun x hx => mem_up.mp hx
  · exact .refl

theorem clamp_mem {v low high : Int} (h : low ≤ high) : low ≤ clamp v low high ∧ clamp v low high ≤ high := by
  unfold clamp
  omega

theorem lastErased_mem (h : s.Bounded) : 0 ≤ s.lastErased ∧ s.lastErased ≤ s.widthChars := by
  obtain ⟨hc0,hc1,-⟩ := h.cursor
  dsimp only at hc0 hc1
  exact clamp_mem (by omega)

theorem cells_eraseChars (h : s.Bounded) : Cells s s.eraseChars := by
  obtain ⟨hc0,-⟩ := h.cursor
  dsimp only at hc0
  have hlast := lastErased_mem h
  refine cells_eraseRow h fun x hx => ?_
  have hmem := mem_up.mp hx
  omega

theorem lastErased_ge_iff (h : s.Bounded) : s.cursorX ≤ s.lastErased ↔
    s.cursorX = 0 ∨ s.cursorX ≤ int (s.cursorX + s.csiArgs 0) := by
  obtain ⟨hc0,hc1,-⟩ := h.cursor
  dsimp only at hc0 hc1
  unfold lastErased clamp
  omega

theorem cells_deleteChars (h : s.Bounded) (hlast : s.cursorX ≤ s.lastErased) : Cells s s.deleteChars := by
  obtain ⟨hc0,hc1,hrow⟩ := h.cursor
  dsimp only at hc0 hc1 hrow
  have hmem := lastErased_mem h
  have herase := cells_eraseChars h
  refine herase.trans (cells_each ?_)
  intro i t hi ht
  have hrange := mem_up.mp hi
  have hcore := (herase.trans ht).1
  refine cells_moveChar ((inside_core hcore).mpr ?_) ((inside_core hcore).mpr ?_)
  · exact ⟨by dsimp only; omega,by dsimp only; omega,hrow⟩
  · exact ⟨by dsimp only; omega,by dsimp only; omega,hrow⟩

end Cells

section Steps

variable {s t u : VirtualTerminal} {x y : Int} {a : Int × Int} {code c : UInt8}

theorem Framed.redrawCursor (hs : s.Framed) (h : s.Inside (s.cursorX,s.cursorY)) : s.redrawCursor.Bounded := by
  unfold VirtualTerminal.redrawCursor
  dsimp only
  split_ifs
  · have htouch := hs.cells (cells_touch hs.oldCursor)
    exact ⟨⟨h,htouch.csiArgIndex,htouch.accesses⟩,h⟩
  · exact ⟨⟨h,hs.csiArgIndex,hs.accesses⟩,h⟩

theorem Bounded.size (h : s.Bounded) : 0 < s.widthChars ∧ 0 < s.heightChars := by
  obtain ⟨hx0,hx1,hy0,hy1⟩ := h.cursor
  exact ⟨by dsimp only at hx0 hx1; omega,by dsimp only at hy0 hy1; omega⟩

theorem Bounded.moveCursor (hs : s.Bounded) (hx : 0 ≤ x ∧ x < s.widthChars) (hy : 0 ≤ y ∧ y < s.heightChars) :
    (s.moveCursor x y).Bounded := by
  have hframed : Framed { s with cursorX := x, cursorY := y, cursorNeedsUndrawing := true } :=
    ⟨hs.oldCursor,hs.csiArgIndex,hs.accesses⟩
  exact hframed.redrawCursor ⟨hx.1,hx.2,hy.1,hy.2⟩

theorem clamp_lt {v high : Int} (h : 0 < high) : 0 ≤ clamp v 0 (high - 1) ∧ clamp v 0 (high - 1) < high := by
  have hmem : 0 ≤ clamp v 0 (high - 1) ∧ clamp v 0 (high - 1) ≤ high - 1 := clamp_mem (by omega)
  omega

theorem Bounded.of_eq (hs : s.Bounded) (h : (t.widthChars,t.heightChars,t.cursorX,t.cursorY,t.oldCursorX,t.oldCursorY,
    t.csiArgIndex,t.accesses) = (s.widthChars,s.heightChars,s.cursorX,s.cursorY,s.oldCursorX,s.oldCursorY,
    s.csiArgIndex,s.accesses)) : t.Bounded := by
  simp only [Prod.mk.injEq] at h
  obtain ⟨hw,hh,hx,hy,hox,hoy,hi,ha⟩ := h
  have hinside : ∀ a, t.Inside a ↔ s.Inside a := fun a => by rw [Inside,Inside,hw,hh]
  refine ⟨⟨?_,?_,?_⟩,?_⟩
  · rw [hinside,hox,hoy]
    exact hs.oldCursor
  · rw [hi]
    exact hs.csiArgIndex
  · intro a hmem
    rw [hinside]
    exact hs.accesses a (ha ▸ hmem)
  · rw [hinside,hx,hy]
    exact hs.cursor

theorem bounded_ite {p : Prop} [Decidable p] (h : p → t.Bounded) (h' : ¬p → u.Bounded) :
    (if p then t else u).Bounded := by
  split_ifs with hp
  · exact h hp
  · exact h' hp

theorem Bounded.selectGraphicRendition (hs : s.Bounded) (n : Int) : (s.selectGraphicRendition n).Bounded := by
  unfold VirtualTerminal.selectGraphicRendition
  repeat' refine bounded_ite (fun _ => ?_) fun _ => ?_
  all_goals exact hs.of_eq rfl

theorem maxCsiArgs_pos : 0 < maxCsiArgs := by decide

theorem Bounded.resetControlSequence (hs : s.Bounded) : s.resetControlSequence.Bounded :=
  ⟨⟨hs.oldCursor,⟨le_refl 0,maxCsiArgs_pos⟩,hs.accesses⟩,hs.cursor⟩

theorem Bounded.defaultArg (hs : s.Bounded) : s.defaultArg.Bounded := by
  unfold VirtualTerminal.defaultArg
  split_ifs
  · exact hs.of_eq rfl
  · exact hs

theorem Bounded.applyControlSequence (hs : s.Bounded) (h : code ≠ byte 'P') : (s.applyControlSequence code).Bounded := by
  obtain ⟨hw,hh⟩ := hs.size
  obtain ⟨hx0,hx1,hy0,hy1⟩ := hs.cursor
  have hx : 0 ≤ s.cursorX ∧ s.cursorX < s.widthChars := ⟨hx0,hx1⟩
  have hy : 0 ≤ s.cursorY ∧ s.cursorY < s.heightChars := ⟨hy0,hy1⟩
  unfold VirtualTerminal.applyControlSequence
  extract_lets n steps column row
  have hcolumn : ∀ i, 0 ≤ column i ∧ column i < s.widthChars := fun i => clamp_lt hw
  have hrow : ∀ i, 0 ≤ row i ∧ row i < s.heightChars := fun i => clamp_lt hh
  refine bounded_ite (fun _ => each_keeps (fun i t _ ht => ht.selectGraphicRendition _) hs) fun _ => ?_
  refine bounded_ite (fun _ => hs.cells cells_eraseDisplay) fun _ => ?_
  refine bounded_ite (fun _ => hs.cells (cells_eraseLine hs)) fun _ => ?_
  refine bounded_ite (fun _ => hs) fun _ => ?_
  refine bounded_ite (fun _ => hs) fun _ => ?_
  refine bounded_ite (fun _ => hs.moveCursor hx (hrow _)) fun _ => ?_
  refine bounded_ite (fun _ => hs.moveCursor hx (hrow _)) fun _ => ?_
  refine bounded_ite (fun _ => hs.moveCursor (hcolumn _) hy) fun _ => ?_
  refine bounded_ite (fun _ => hs.moveCursor (hcolumn _) hy) fun _ => ?_
  refine bounded_ite (fun _ => hs.moveCursor ⟨le_refl 0,hw⟩ (hrow _)) fun _ => ?_
  refine bounded_ite (fun _ => hs.moveCursor ⟨le_refl 0,hw⟩ (hrow _)) fun _ => ?_
  refine bounded_ite (fun _ => hs.moveCursor (hcolumn _) hy) fun _ => ?_
  refine bounded_ite (fun _ => hs.moveCursor (hcolumn _) (hrow _)) fun _ => ?_
  refine bounded_ite (fun _ => hs.moveCursor hx (hrow _)) fun _ => ?_
  refine bounded_ite (fun _ => hs.moveCursor ⟨le_refl 0,hw⟩ ⟨le_refl 0,hh⟩) fun _ => ?_
  refine bounded_ite (fun hcode => absurd hcode h) fun _ => ?_
  refine bounded_ite (fun _ => hs.defaultArg.cells (cells_eraseChars hs.defaultArg)) fun _ => ?_
  refine bounded_ite (fun _ => bounded_ite (fun _ => hs.of_eq rfl) fun _ => hs) fun _ => hs

theorem Bounded.addDigit (hs : s.Bounded) : (s.addDigit c).Bounded := hs.of_eq rfl

theorem Bounded.nextArg (hs : s.Bounded) : s.nextArg.Bounded := by
  obtain ⟨hi0,-⟩ := hs.csiArgIndex
  unfold VirtualTerminal.nextArg
  dsimp only
  split_ifs with hi
  · exact hs.resetControlSequence.of_eq rfl
  · exact ⟨⟨hs.oldCursor,⟨Int.le_add_one hi0,not_le.mp hi⟩,hs.accesses⟩,hs.cursor⟩

theorem Bounded.backspace (hs : s.Bounded) : s.backspace.Bounded := by
  obtain ⟨hx0,hx1,hy⟩ := hs.cursor
  dsimp only at hx0 hx1
  unfold VirtualTerminal.backspace
  split_ifs with h
  · have hframed : Framed { s with cursorX := s.cursorX - 1, cursorNeedsUndrawing := true } :=
      ⟨hs.oldCursor,hs.csiArgIndex,hs.accesses⟩
    refine hframed.redrawCursor ⟨?_,?_,hy⟩
    · dsimp only
      omega
    · dsimp only
      omega
  · exact hs.of_eq rfl

structure Drifted (s : VirtualTerminal) : Prop extends Framed s where
  size : 0 < s.widthChars ∧ 0 < s.heightChars
  column : 0 ≤ s.cursorX
  row : 0 ≤ s.cursorY ∧ s.cursorY ≤ s.heightChars
  corner : s.widthChars ≤ s.cursorX → s.cursorY < s.heightChars

theorem Bounded.drifted (hs : s.Bounded) : s.Drifted := by
  obtain ⟨hx0,-,hy0,hy1⟩ := hs.cursor
  exact ⟨hs.toFramed,hs.size,hx0,⟨hy0,le_of_lt hy1⟩,fun _ => hy1⟩

def wrap (s : VirtualTerminal) : VirtualTerminal :=
  if s.cursorX ≥ s.widthChars then { s with cursorX := 0, cursorY := s.cursorY + 1 } else s

def scrollBelow (s : VirtualTerminal) : VirtualTerminal :=
  if s.cursorY ≥ s.heightChars then { s.scroll with cursorY := s.scroll.cursorY - 1 } else s

theorem settle_eq : s.settle = { s.wrap.scrollBelow.redrawCursor with cursorNeedsUndrawing := true } := rfl

theorem Drifted.wrap (hs : s.Drifted) : s.wrap.Drifted ∧ s.wrap.cursorX < s.wrap.widthChars := by
  unfold VirtualTerminal.wrap
  split_ifs with h
  · have hrow := hs.corner h
    refine ⟨⟨⟨hs.oldCursor,hs.csiArgIndex,hs.accesses⟩,hs.size,le_refl 0,⟨?_,?_⟩,?_⟩,hs.size.1⟩
    · exact Int.le_add_one hs.row.1
    · exact hrow
    · exact fun hwidth => absurd hwidth (not_le.mpr hs.size.1)
  · exact ⟨hs,not_le.mp h⟩

theorem Drifted.scrollBelow (hs : s.Drifted) (h : s.cursorX < s.widthChars) :
    s.scrollBelow.Framed ∧ s.scrollBelow.Inside (s.scrollBelow.cursorX,s.scrollBelow.cursorY) := by
  obtain ⟨hrow0,hrow1⟩ := hs.row
  unfold VirtualTerminal.scrollBelow
  split_ifs with hbelow
  · obtain ⟨t,ht,heq⟩ := cells_scroll hs.size.2
    have hframed := hs.toFramed.cells ht
    have hx : t.cursorX = s.cursorX := core_eq (fun _ => rfl) ht.1
    have hy : t.cursorY = s.cursorY := core_eq (fun _ => rfl) ht.1
    rw [heq]
    refine ⟨⟨hframed.oldCursor,hframed.csiArgIndex,hframed.accesses⟩,?_⟩
    refine (inside_core ht.1).mpr ⟨?_,?_,?_,?_⟩
    · exact hx.symm ▸ hs.column
    · exact hx.symm ▸ h
    · have hheight := hs.size.2
      dsimp only
      omega
    · dsimp only
      omega
  · exact ⟨hs.toFramed,hs.column,h,hrow0,not_le.mp hbelow⟩

theorem Drifted.settle (hs : s.Drifted) : s.settle.Bounded := by
  obtain ⟨hwrap,hx⟩ := hs.wrap
  obtain ⟨hframed,hinside⟩ := hwrap.scrollBelow hx
  rw [settle_eq]
  exact (hframed.redrawCursor hinside).of_eq rfl

theorem Bounded.printChar (hs : s.Bounded) (h : s.insertMode = false) : (s.printChar c).Drifted := by
  obtain ⟨hx0,-,hy0,hy1⟩ := hs.cursor
  have hcells : Cells s (s.setCharAtCursor c) := cells_setCharAt hs.cursor
  have hset := hs.cells hcells
  have hprint : s.printChar c = { s.setCharAtCursor c with cursorX := (s.setCharAtCursor c).cursorX + 1 } := by
    unfold VirtualTerminal.printChar
    rw [h]
    rfl
  have hdrift := hset.drifted
  rw [hprint]
  refine ⟨⟨hset.oldCursor,hset.csiArgIndex,hset.accesses⟩,hset.size,?_,hdrift.row,?_⟩
  · exact Int.le_add_one hdrift.column
  · exact fun _ => hset.cursor.2.2.2

def printable (c : UInt8) : Bool := c ∉ [8,9,10,11,12,13,14,15,7,0,0x1b,0x7f]

theorem alignUp_ge {i : Int} : i ≤ alignUp i 8 := by
  unfold alignUp
  split_ifs <;> omega

theorem Bounded.plainChar (hs : s.Bounded) (hc : c ≠ 8) (h : printable c → s.insertMode = false) : (s.plainChar c).Drifted := by
  obtain ⟨hx0,hx1,hy0,hy1⟩ := hs.cursor
  have hframed := hs.toFramed
  have hsize := hs.size
  unfold VirtualTerminal.plainChar
  split_ifs with htab hreturn hline hescape hnone
  · refine ⟨⟨hs.oldCursor,hs.csiArgIndex,hs.accesses⟩,hsize,?_,⟨hy0,le_of_lt hy1⟩,fun _ => hy1⟩
    exact le_trans (Int.le_add_one hx0) alignUp_ge
  · exact ⟨⟨hs.oldCursor,hs.csiArgIndex,hs.accesses⟩,hsize,le_refl 0,⟨hy0,le_of_lt hy1⟩,fun _ => hy1⟩
  · refine ⟨⟨hs.oldCursor,hs.csiArgIndex,hs.accesses⟩,hsize,le_refl 0,⟨Int.le_add_one hy0,hy1⟩,?_⟩
    exact fun hwidth => absurd hwidth (not_le.mpr hsize.1)
  · have hescaped : Bounded { s with csiProgress := 1 } := hs.of_eq rfl
    exact hescaped.drifted
  · exact hs.drifted
  · refine hs.printChar (h ?_)
    simp_all [printable]

end Steps

structure Later (s t : VirtualTerminal) : Prop where
  width : t.widthChars = s.widthChars
  height : t.heightChars = s.heightChars
  accesses : ∀ a ∈ s.accesses, a ∈ t.accesses

section Later

variable {s t u : VirtualTerminal} {x y newX newY : Int} {a : Int × Int} {c : UInt8} {fg bg : UInt32}
variable {is : List Int} {f : Int → VirtualTerminal → VirtualTerminal}

theorem Later.refl : Later s s := ⟨rfl,rfl,fun _ h => h⟩

theorem Later.trans (h : Later s t) (h' : Later t u) : Later s u :=
  ⟨h'.width.trans h.width,h'.height.trans h.height,fun a ha => h'.accesses a (h.accesses a ha)⟩

theorem Later.escapes (h : Later s t) (ha : a ∈ s.accesses) (hout : s.widthChars ≤ a.1) : ¬t.Bounded := by
  intro hbounded
  obtain ⟨-,hx,-⟩ := hbounded.accesses a (h.accesses a ha)
  rw [h.width] at hx
  exact absurd hout (not_le.mpr hx)

theorem setCharAt_accesses : (s.setCharAt x y c fg bg).accesses = (x,y) :: s.accesses := by
  unfold setCharAt
  dsimp only
  split_ifs <;> rfl

theorem later_touch : Later s (s.touch x y) := ⟨rfl,rfl,fun _ ha => List.mem_cons_of_mem _ ha⟩

theorem later_setCharAt : Later s (s.setCharAt x y c fg bg) := by
  unfold setCharAt
  dsimp only
  split_ifs
  · exact later_touch
  · exact ⟨rfl,rfl,later_touch.accesses⟩

theorem later_moveChar : Later s (s.moveChar x y newX newY) :=
  later_touch.trans (later_setCharAt.trans later_setCharAt)

theorem moveChar_reaches : (newX,newY) ∈ (s.moveChar x y newX newY).accesses := by
  refine later_setCharAt.accesses _ ?_
  rw [setCharAt_accesses]
  exact List.mem_cons_self

theorem later_each (h : ∀ i t, Later t (f i t)) : Later s (each is f s) :=
  each_keeps (P := fun t => Later s t) (fun i t _ ht => ht.trans (h i t)) .refl

theorem later_scroll : Later s s.scroll := by
  have hrows : Later s (each (up 0 (s.heightChars - 1))
      (fun y t => each (up 0 t.widthChars) (scrollCell y) t) s) :=
    later_each fun _ _ => later_each fun _ _ => later_touch.trans later_setCharAt
  have hlast : ∀ t, Later t (each (up 0 t.widthChars) (fun x u => u.erase x (u.heightChars - 1)) t) :=
    fun t => later_each fun _ _ => later_setCharAt
  have hboth := hrows.trans (hlast _)
  exact ⟨hboth.width,hboth.height,hboth.accesses⟩

theorem later_redrawCursor : Later s s.redrawCursor := by
  unfold VirtualTerminal.redrawCursor
  dsimp only
  split_ifs
  · exact ⟨rfl,rfl,later_touch.accesses⟩
  · exact ⟨rfl,rfl,fun _ ha => ha⟩

theorem later_settle : Later s s.settle := by
  have hwrap : Later s s.wrap := by
    unfold wrap
    split_ifs
    · exact ⟨rfl,rfl,fun _ ha => ha⟩
    · exact .refl
  have hscroll : Later s.wrap s.wrap.scrollBelow := by
    unfold scrollBelow
    split_ifs
    · exact ⟨later_scroll.width,later_scroll.height,later_scroll.accesses⟩
    · exact .refl
  have hdraw := (hwrap.trans hscroll).trans later_redrawCursor
  exact ⟨hdraw.width,hdraw.height,hdraw.accesses⟩

theorem moves_escape {i : Int} (old new : Int → Int) (hi : i ∈ is) (hout : s.widthChars ≤ new i)
    (h : Later (each is (fun i t => t.moveChar (old i) y (new i) y) s) t) : ¬t.Bounded := by
  have hlater : Later s (each is (fun i t => t.moveChar (old i) y (new i) y) s) := later_each fun _ _ => later_moveChar
  refine h.escapes (a := (new i,y)) ?_ (hlater.width ▸ hout)
  exact each_reaches (P := fun t : VirtualTerminal => (new i,y) ∈ t.accesses) hi (fun _ => moveChar_reaches)
    fun j t ht => later_moveChar.accesses _ ht

theorem shiftRight_escapes (hs : s.Bounded) (h : Later s.shiftRight t) : ¬t.Bounded := by
  obtain ⟨-,hx,-⟩ := hs.cursor
  dsimp only at hx
  refine moves_escape (i := s.widthChars - 1) (fun i => i) (fun i => i + 1) ?_ ?_ h
  · exact mem_down.mpr (by omega)
  · omega

theorem deleteChars_escapes (hs : s.Bounded) (hlast : s.lastErased < s.cursorX) (h : Later s.deleteChars t) :
    ¬t.Bounded := by
  obtain ⟨-,hx,-⟩ := hs.cursor
  dsimp only at hx
  have herase := (cells_eraseChars hs).width
  refine moves_escape (i := s.widthChars - s.cursorX) (fun i => s.lastErased + i) (fun i => s.cursorX + i) ?_ ?_ h
  · exact mem_up.mpr (by omega)
  · omega

end Later

end SabaOS.Gfx.VirtualTerminal

namespace SabaOS.Gfx

open SabaOS.Lib

namespace VirtualTerminal

structure Safe (s : VirtualTerminal) (c : UInt8) : Prop where
  delete : s.csiProgress = 2 → c = byte 'P' →
    s.cursorX = 0 ∨ s.cursorX ≤ int (s.cursorX + s.defaultArg.csiArgs 0)
  insert : s.csiProgress ≠ 1 → s.csiProgress ≠ 2 → printable c → s.insertMode = false

variable {s : VirtualTerminal} {c : UInt8}

theorem defaultArg_cursorX : s.defaultArg.cursorX = s.cursorX := by
  unfold defaultArg
  split_ifs <;> rfl

theorem bounded_delete_iff (hs : s.Bounded) : (s.applyControlSequence (byte 'P')).resetControlSequence.Bounded ↔
    s.cursorX = 0 ∨ s.cursorX ≤ int (s.cursorX + s.defaultArg.csiArgs 0) := by
  have hdelete : s.applyControlSequence (byte 'P') = s.defaultArg.deleteChars := by
    simp +decide [applyControlSequence]
  have hlast := lastErased_ge_iff hs.defaultArg
  rw [defaultArg_cursorX] at hlast
  rw [hdelete,← hlast,← defaultArg_cursorX]
  constructor
  · intro h
    by_contra hlt
    have hreset : Later s.defaultArg.deleteChars s.defaultArg.deleteChars.resetControlSequence :=
      ⟨rfl,rfl,fun _ ha => ha⟩
    exact deleteChars_escapes hs.defaultArg (not_le.mp hlt) hreset h
  · intro h
    exact (hs.defaultArg.cells (cells_deleteChars hs.defaultArg h)).resetControlSequence

theorem bounded_controlChar_iff (hs : s.Bounded) : (s.controlChar c).Bounded ↔
    (c = byte 'P' → s.cursorX = 0 ∨ s.cursorX ≤ int (s.cursorX + s.defaultArg.csiArgs 0)) := by
  by_cases hc : c = byte 'P'
  · subst hc
    have hdelete := bounded_delete_iff hs
    exact hdelete.trans ⟨fun h _ => h,fun h => h rfl⟩
  · refine iff_of_true ?_ fun h => absurd h hc
    unfold controlChar
    refine bounded_ite (fun _ => hs.addDigit) fun _ => ?_
    refine bounded_ite (fun _ => (hs.applyControlSequence hc).resetControlSequence) fun _ => ?_
    refine bounded_ite (fun _ => hs.nextArg) fun _ => ?_
    exact bounded_ite (fun _ => hs.of_eq rfl) fun _ => hs.resetControlSequence

theorem plainChar_printable (h : printable c) : s.plainChar c = s.printChar c := by
  unfold plainChar
  simp_all [printable]

theorem bounded_plainChar_iff (hs : s.Bounded) (hc : c ≠ 8) :
    (s.plainChar c).settle.Bounded ↔ (printable c → s.insertMode = false) := by
  constructor
  · intro h hprint
    by_contra hinsert
    have hinsert : s.insertMode = true := by simpa using hinsert
    rw [plainChar_printable hprint] at h
    refine shiftRight_escapes hs ?_ h
    refine Later.trans ?_ later_settle
    unfold printChar
    rw [if_pos hinsert]
    have hset : Later s.shiftRight (s.shiftRight.setCharAtCursor c) := later_setCharAt
    exact ⟨hset.width,hset.height,hset.accesses⟩
  · exact fun h => (hs.plainChar hc h).settle

theorem bounded_writeChar_iff (hs : s.Bounded) : (s.writeChar c).Bounded ↔ s.Safe c := by
  have hsafe : s.Safe c ↔ (s.csiProgress = 2 → c = byte 'P' →
      s.cursorX = 0 ∨ s.cursorX ≤ int (s.cursorX + s.defaultArg.csiArgs 0)) ∧
      (s.csiProgress ≠ 1 → s.csiProgress ≠ 2 → printable c → s.insertMode = false) :=
    ⟨fun h => ⟨h.delete,h.insert⟩,fun h => ⟨h.1,h.2⟩⟩
  rw [hsafe]
  unfold writeChar
  split_ifs with hone hbracket htwo hback
  · exact iff_of_true (hs.of_eq rfl) ⟨by omega,by omega⟩
  · exact iff_of_true hs.resetControlSequence ⟨by omega,by omega⟩
  · rw [bounded_controlChar_iff hs]
    simp [htwo]
  · refine iff_of_true hs.backspace ⟨fun h => absurd h htwo,fun _ _ h => ?_⟩
    rw [hback] at h
    exact absurd h (by decide)
  · rw [bounded_plainChar_iff hs hback]
    simp [hone,htwo]

def Step (s : VirtualTerminal) (c : UInt8) (t : VirtualTerminal) : Prop := s.writeChar c = t

def tracking : Tracking Step (fun (_ : Unit) _ => ()) where
  Inv _ _ := True
  View s _ := s.Bounded
  Ok _ := True
  Safe := Safe
  view_step _ hs _ hstep := by
    cases hstep
    exact bounded_writeChar_iff hs
  inv_step _ _ _ _ _ := trivial

theorem runs_iff {bytes : List UInt8} {t : VirtualTerminal} :
    Runs Step s bytes t ↔ bytes.foldl writeChar s = t := by
  induction bytes generalizing s with
  | nil => exact Iff.rfl
  | cons c bytes ih =>
    constructor
    · rintro ⟨u,rfl,h⟩
      exact ih.mp h
    · intro h
      exact ⟨_,rfl,ih.mpr h⟩

theorem foldl_bounded_iff (hs : s.Bounded) (bytes : List UInt8) :
    (∀ pre, pre <+: bytes → (pre.foldl writeChar s).Bounded) ↔
      ∀ pre c, pre ++ [c] <+: bytes → (pre.foldl writeChar s).Safe c := by
  have hops : ∀ c ∈ bytes, tracking.Ok c := fun _ _ => trivial
  have htrack := tracking.view_iff_safe (a := ()) hops trivial hs
  constructor
  · intro h pre c hpre
    refine htrack.mp ?_ pre c hpre _ _ (runs_iff.mpr rfl) rfl
    intro pre' hpre' t ht
    cases runs_iff.mp ht
    exact h pre' hpre'
  · intro h pre hpre
    refine htrack.mpr ?_ pre hpre _ (runs_iff.mpr rfl)
    intro pre' c hpre' t t' ht ht'
    cases runs_iff.mp ht
    exact h pre' c hpre'

end VirtualTerminal

structure Size where
  width : Int
  height : Int
  width_pos : 1 ≤ width
  height_pos : 1 ≤ height

namespace Size

def terminal (size : Size) (oldCursorX oldCursorY : Int) : VirtualTerminal :=
  .create size.width size.height oldCursorX oldCursorY

theorem terminal_bounded (size : Size) (oldCursorX oldCursorY : Int) :
    (size.terminal oldCursorX oldCursorY).Bounded := by
  have hinside : 0 ≤ (0 : Int) ∧ (0 : Int) < size.width ∧ 0 ≤ (0 : Int) ∧ (0 : Int) < size.height :=
    ⟨le_refl 0,size.width_pos,le_refl 0,size.height_pos⟩
  have hstart : (VirtualTerminal.blank size.width size.height oldCursorX oldCursorY).redrawCursor.Bounded :=
    ⟨⟨hinside,⟨le_refl 0,VirtualTerminal.maxCsiArgs_pos⟩,fun a ha => by cases ha⟩,hinside⟩
  exact hstart.cells VirtualTerminal.cells_redraw

end Size

theorem bounded_iff (size : Size) (oldCursorX oldCursorY : Int) (bytes : List UInt8) :
    (∀ pre, pre <+: bytes → (pre.foldl VirtualTerminal.writeChar (size.terminal oldCursorX oldCursorY)).Bounded) ↔
      ∀ pre c, pre ++ [c] <+: bytes →
        (pre.foldl VirtualTerminal.writeChar (size.terminal oldCursorX oldCursorY)).Safe c :=
  VirtualTerminal.foldl_bounded_iff (size.terminal_bounded oldCursorX oldCursorY) bytes

def inserted : VirtualTerminal :=
  [0x1b,0x5b,0x34,0x68,0x78].foldl VirtualTerminal.writeChar (VirtualTerminal.create 8 2 0 0)

theorem inserted_outside : (8,0) ∈ inserted.accesses ∧ ¬inserted.Bounded := by
  have hmem : (8,0) ∈ inserted.accesses := by decide +kernel
  refine ⟨hmem,?_⟩
  intro h
  have hinside := (h.accesses _ hmem).2.1
  exact absurd hinside (by decide +kernel)

end SabaOS.Gfx
