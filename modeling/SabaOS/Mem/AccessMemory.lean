import SabaOS.Lib.Iterate
import SabaOS.Mem.Reach

namespace SabaOS.Mem
open SabaOS.Klib SabaOS.Lib

inductive Touch where
  | page (pageVirt : Nat)
  | byte (phy i : Nat)
  deriving DecidableEq, Repr

-- `target` is the caller's buffer. The log, newest first, has the pages that were looked up and
-- the bytes that were moved.
structure Transfer where
  vm : VM
  target : Nat → UInt8
  log : List Touch

def VM.getPhysicalAddr (vm : VM) (pm virt : Nat) : Option (VM × Option Nat) :=
  let e := vm.entry pm (pageKey virt)
  if e.present then some (vm,some e.pfn) else VM.handlePageFault VM.faultDepth vm pm virt

namespace Transfer

def find (t : Transfer) (pm pageVirt : Nat) : Option (Transfer × Option Nat) :=
  (t.vm.getPhysicalAddr pm pageVirt).map fun out =>
    ({ t with vm := out.1, log := .page pageVirt :: t.log },out.2)

def move (t : Transfer) (write : Bool) (phy i : Nat) : Transfer :=
  let pfn := phy / pageSize
  let offset := phy % pageSize
  let log := .byte phy i :: t.log
  if write then
    { t with vm := t.vm.fill pfn (Function.update (t.vm.mem pfn) offset (t.target i)), log := log }
  else { t with target := Function.update t.target i (t.vm.mem pfn offset), log := log }

def memcpy (write : Bool) : Nat → Nat → Nat → Transfer → Transfer
  | _, _, 0, t => t
  | phy, i, n + 1, t => memcpy write (uadd phy 1) (i + 1) n (t.move write phy i)

end Transfer

structure MemoryAccess where
  pm : Nat
  virt : Nat
  count : Nat
  write : Bool
  deriving DecidableEq, Repr

structure Cursor where
  pageVirt : Nat
  transferred : Nat
  transfer : Transfer

abbrev Answer := Transfer × Except Errno Nat

def answer (transferred : Nat) : Except Errno Nat :=
  if transferred = 0 then .error .efault else .ok transferred

namespace MemoryAccess

def stop (a : MemoryAccess) : Nat := uadd a.virt a.count

def start (a : MemoryAccess) (t : Transfer) : Cursor := ⟨alignDown a.virt pageSize,0,t⟩

def offset (a : MemoryAccess) (pageVirt : Nat) : Nat :=
  if pageVirt < a.virt then usub a.virt pageVirt else 0

def bytesInPage (a : MemoryAccess) (pageVirt : Nat) : Nat :=
  let bytes := usub pageSize (a.offset pageVirt)
  if uadd pageVirt pageSize ≥ a.stop then usub bytes (usub (uadd pageVirt pageSize) a.stop)
  else bytes

def turn (a : MemoryAccess) (c : Cursor) : Turn Cursor Answer :=
  if c.pageVirt > alignDown a.stop pageSize then .stop (c.transfer,.ok c.transferred)
  else if a.bytesInPage c.pageVirt = 0 then .stop (c.transfer,.ok c.transferred)
  else
    match c.transfer.find a.pm c.pageVirt with
    | none => .stuck
    | some (t,none) => .stop (t,answer c.transferred)
    | some (t,some pfn) => .again ⟨uadd c.pageVirt pageSize,
        uadd c.transferred (a.bytesInPage c.pageVirt),
        t.memcpy a.write (uadd (pfn * pageSize) (a.offset c.pageVirt)) c.transferred
          (a.bytesInPage c.pageVirt)⟩

def copyBytes (a : MemoryAccess) : Nat → Option Nat → Nat → Transfer → Option Answer
  | 0, _, i, t => some (t,.ok i)
  | n + 1, frame, i, t =>
      match if frame = none ∨ (a.virt + i) % pageSize = 0 then
          t.find a.pm (alignDown (a.virt + i) pageSize) else some (t,frame) with
      | none => none
      | some (t,none) => some (t,answer i)
      | some (t,some pfn) => a.copyBytes n (some pfn) (i + 1)
          (t.move a.write (uadd (pfn * pageSize) ((a.virt + i) % pageSize)) i)

def page (a : MemoryAccess) (i : Nat) : Nat := alignDown (a.virt + i) pageSize

def share (a : MemoryAccess) (n i : Nat) : Nat := min n (pageSize - (a.virt + i) % pageSize)

theorem uadd_succ (x y : Nat) : uadd (uadd x y) 1 = uadd x (y + 1) := by
  simp only [uadd]
  omega

section Pages

variable {a : MemoryAccess} {n i k pfn : Nat} {t t' : Transfer}

theorem copyBytes_inside (hk : k ≤ n) (hoff : (a.virt + i) % pageSize ≠ 0)
    (hpage : (a.virt + i) % pageSize + k ≤ pageSize) :
    a.copyBytes n (some pfn) i t = a.copyBytes (n - k) (some pfn) (i + k)
      (t.memcpy a.write (uadd (pfn * pageSize) ((a.virt + i) % pageSize)) i k) := by
  have hps : pageSize = 4096 := rfl
  induction k generalizing n i t with
  | zero => rfl
  | succ k ih =>
    obtain ⟨n,rfl⟩ : ∃ m, n = m + 1 := ⟨n - 1,by omega⟩
    rw [copyBytes,if_neg (by simp [hoff])]
    dsimp only
    rcases Nat.eq_zero_or_pos k with rfl | hpos
    · rfl
    have hnext : (a.virt + (i + 1)) % pageSize = (a.virt + i) % pageSize + 1 := by
      rw [hps] at *
      omega
    rw [ih (by omega) (by omega) (by omega),hnext,Nat.succ_sub_succ,Transfer.memcpy,
      Nat.add_assoc i 1 k,Nat.add_comm 1 k,uadd_succ]

theorem copyBytes_fresh (h : n = 0 ∨ (a.virt + i) % pageSize = 0) :
    a.copyBytes n (some pfn) i t = a.copyBytes n none i t := by
  cases n with
  | zero => rfl
  | succ n =>
    have h := h.resolve_left (Nat.succ_ne_zero n)
    simp only [copyBytes,h,or_true,if_true]

theorem copyBytes_stuck (hn : n ≠ 0) (hf : t.find a.pm (a.page i) = none) :
    a.copyBytes n none i t = none := by
  obtain ⟨n,rfl⟩ : ∃ m, n = m + 1 := ⟨n - 1,by omega⟩
  rw [copyBytes,if_pos (.inl rfl),← page,hf]

theorem copyBytes_fault (hn : n ≠ 0) (hf : t.find a.pm (a.page i) = some (t',none)) :
    a.copyBytes n none i t = some (t',answer i) := by
  obtain ⟨n,rfl⟩ : ∃ m, n = m + 1 := ⟨n - 1,by omega⟩
  rw [copyBytes,if_pos (.inl rfl),← page,hf]

theorem copyBytes_share (hn : n ≠ 0) (hf : t.find a.pm (a.page i) = some (t',some pfn)) :
    a.copyBytes n none i t = a.copyBytes (n - a.share n i) none (i + a.share n i)
      (t'.memcpy a.write (uadd (pfn * pageSize) ((a.virt + i) % pageSize)) i (a.share n i)) := by
  have hps : pageSize = 4096 := rfl
  have hmod : (a.virt + i) % pageSize < pageSize := Nat.mod_lt _ (by decide)
  have hshare : a.share n i = min n (pageSize - (a.virt + i) % pageSize) := rfl
  generalize a.share n i = k at hshare ⊢
  obtain ⟨n,rfl⟩ : ∃ m, n = m + 1 := ⟨n - 1,by omega⟩
  obtain ⟨k,rfl⟩ : ∃ m, k = m + 1 := ⟨k - 1,by omega⟩
  rw [copyBytes,if_pos (.inl rfl),← page,hf]
  have hlast : n + 1 - (k + 1) = 0 ∨ (a.virt + (i + (k + 1))) % pageSize = 0 := by
    rw [hps] at *
    omega
  rw [← copyBytes_fresh hlast,Transfer.memcpy]
  dsimp only
  rcases Nat.eq_zero_or_pos k with rfl | hpos
  · rfl
  have hnext : (a.virt + (i + 1)) % pageSize = (a.virt + i) % pageSize + 1 := by
    rw [hps] at *
    omega
  have hkn : k ≤ n := by omega
  rw [copyBytes_inside hkn (by omega) (by omega),hnext,Nat.succ_sub_succ,
    Nat.add_assoc i 1 k,Nat.add_comm 1 k,uadd_succ]

end Pages

section Loop

variable {a : MemoryAccess} {n i pfn : Nat} {t t' : Transfer} {out : Answer}

def Enters (a : MemoryAccess) (i : Nat) : Prop := i = 0 ∨ (a.virt + i) % pageSize = 0

theorem alignDown_page (x : Nat) : alignDown x pageSize = x / 4096 * 4096 := by
  have hps : pageSize = 4096 := rfl
  rw [alignDown,hps]
  split_ifs
  · rfl
  · omega

theorem page_eq : a.page i = (a.virt + i) / 4096 * 4096 := alignDown_page _

variable (h : a.virt + a.count < 2 ^ 64) (hi : i ≤ a.count) (he : a.Enters i)
include h

theorem stop_eq : a.stop = a.virt + a.count := uadd_of_lt h

include hi he

theorem offset_eq : a.offset (a.page i) = (a.virt + i) % pageSize := by
  have hps : pageSize = 4096 := rfl
  rw [page_eq,offset,hps]
  rcases he with rfl | he
  · split_ifs with hlt
    · rw [usub_of_le (by omega) (by omega)]
      omega
    · omega
  · rw [hps] at he
    rw [if_neg (by omega)]
    omega

theorem bytesInPage_below (htop : a.page i + pageSize < 2 ^ 64) :
    a.bytesInPage (a.page i) =
      min (a.count - i) (pageSize - (a.virt + i) % pageSize) := by
  have hps : pageSize = 4096 := rfl
  have hend := uadd_of_lt htop
  have hmod : (a.virt + i) % pageSize < pageSize := Nat.mod_lt _ (by decide)
  have hoff : usub pageSize ((a.virt + i) % pageSize) = pageSize - (a.virt + i) % pageSize :=
    usub_of_le (by decide) hmod.le
  rw [bytesInPage,offset_eq h hi he,stop_eq h,hend,hoff]
  rw [page_eq,hps] at htop ⊢
  rw [hps] at hmod
  split_ifs with hge
  · rw [usub_of_le (by omega) hge,usub_of_le (by omega) (by omega)]
    omega
  · omega

theorem bytesInPage_top (htop : a.page i + pageSize = 2 ^ 64) :
    a.bytesInPage (a.page i) = pageSize - (a.virt + i) % pageSize := by
  have hps : pageSize = 4096 := rfl
  have hend : uadd (a.page i) pageSize = 0 := by
    rw [uadd,htop]
    rfl
  have hmod : (a.virt + i) % pageSize < pageSize := Nat.mod_lt _ (by decide)
  have hoff : usub pageSize ((a.virt + i) % pageSize) = pageSize - (a.virt + i) % pageSize :=
    usub_of_le (by decide) hmod.le
  rw [bytesInPage,offset_eq h hi he,stop_eq h,hend,hoff]
  rw [page_eq,hps] at htop
  exact if_neg (by omega)

omit he in
theorem page_le_stop : ¬ a.page i > alignDown a.stop pageSize := by
  rw [stop_eq h,page_eq,alignDown_page]
  omega

omit he in
theorem turn_stuck (hb : a.bytesInPage (a.page i) ≠ 0) (hf : t.find a.pm (a.page i) = none) :
    a.turn ⟨a.page i,i,t⟩ = .stuck := by
  rw [turn,if_neg (page_le_stop h hi),if_neg hb,hf]

omit he in
theorem turn_fault (hb : a.bytesInPage (a.page i) ≠ 0)
    (hf : t.find a.pm (a.page i) = some (t',none)) : a.turn ⟨a.page i,i,t⟩ = .stop (t',answer i) := by
  rw [turn,if_neg (page_le_stop h hi),if_neg hb,hf]

theorem turn_share (hb : a.bytesInPage (a.page i) ≠ 0)
    (hf : t.find a.pm (a.page i) = some (t',some pfn)) : a.turn ⟨a.page i,i,t⟩ =
      .again ⟨uadd (a.page i) pageSize,uadd i (a.bytesInPage (a.page i)),
        t'.memcpy a.write (uadd (pfn * pageSize) ((a.virt + i) % pageSize)) i
          (a.bytesInPage (a.page i))⟩ := by
  rw [turn,if_neg (page_le_stop h hi),if_neg hb,hf]
  dsimp only
  rw [offset_eq h hi he]

omit hi he in
theorem ends_done (hdone : a.virt + a.count < 2 ^ 64 - pageSize) {c : Cursor}
    (hc : c.pageVirt > a.page a.count ∨ c.pageVirt = a.page a.count ∧ a.Enters a.count) :
    Ends a.turn c (c.transfer,.ok c.transferred) := by
  refine .stop ?_
  rcases hc with hc | ⟨hc,he⟩
  · rw [turn,if_pos (by rw [stop_eq h]; exact hc)]
  · have hb := bytesInPage_below h le_rfl he (by
      have hps : pageSize = 4096 := rfl
      rw [page_eq]
      omega)
    rw [Nat.sub_self,Nat.zero_min] at hb
    rw [turn,if_neg (by rw [stop_eq h,hc]; exact lt_irrefl _),hc,if_pos hb]

end Loop

section Log

variable {a : MemoryAccess} {t t' : Transfer} {c c' : Cursor} {out : Answer}

theorem memcpy_log (write : Bool) (phy i n : Nat) (t : Transfer) :
    (t.memcpy write phy i n).log.length = t.log.length + n := by
  induction n generalizing phy i t with
  | zero => rfl
  | succ n ih =>
    have hmove : (t.move write phy i).log.length = t.log.length + 1 := by
      unfold Transfer.move
      cases write <;> rfl
    rw [Transfer.memcpy,ih,hmove]
    omega

theorem find_log {pm pageVirt : Nat} {frame : Option Nat} (h : t.find pm pageVirt = some (t',frame)) :
    t'.log.length = t.log.length + 1 := by
  obtain ⟨⟨vm,res⟩,_,he⟩ := Option.map_eq_some_iff.mp h
  cases he
  rfl

theorem turn_log : (∀ c', a.turn c = .again c' → c.transfer.log.length ≤ c'.transfer.log.length) ∧
    ∀ out, a.turn c = .stop out → c.transfer.log.length ≤ out.1.log.length := by
  unfold turn
  split_ifs
  · exact ⟨nofun,fun out ho => by cases ho; exact le_rfl⟩
  · exact ⟨nofun,fun out ho => by cases ho; exact le_rfl⟩
  · cases hf : c.transfer.find a.pm c.pageVirt with
    | none => exact ⟨nofun,nofun⟩
    | some found =>
      obtain ⟨t,frame⟩ := found
      have hlog := find_log hf
      cases frame with
      | none => exact ⟨nofun,fun out ho => by cases ho; dsimp only; omega⟩
      | some pfn =>
        refine ⟨fun c' hc => ?_,nofun⟩
        obtain rfl := Turn.again.inj hc
        have hcopy := memcpy_log a.write (uadd (pfn * pageSize) (a.offset c.pageVirt)) c.transferred
          (a.bytesInPage c.pageVirt) t
        have hle : c.transfer.log.length ≤ t.log.length + a.bytesInPage c.pageVirt := by omega
        exact hle.trans hcopy.ge

theorem ends_log (h : Ends a.turn c out) : c.transfer.log.length ≤ out.1.log.length := by
  obtain ⟨d,hd,hstop⟩ := h.last
  refine le_trans ?_ (turn_log.2 _ hstop)
  clear hstop
  induction hd with
  | refl => exact le_rfl
  | tail _ hs ih => exact ih.trans (turn_log.1 _ hs)

end Log

section Copy

variable {a : MemoryAccess} {n i : Nat} {t : Transfer} {out out' : Answer}

theorem share_spec (hn : n ≠ 0) : 0 < a.share n i ∧ a.share n i ≤ n ∧
    (a.share n i = n ∨ a.virt + (i + a.share n i) = a.page i + pageSize) := by
  have hps : pageSize = 4096 := rfl
  rw [share,page_eq,hps]
  omega

theorem page_entered {j : Nat} (h : a.virt + j = a.page i + pageSize) :
    a.Enters j ∧ a.page j = a.page i + pageSize := by
  have hps : pageSize = 4096 := rfl
  rw [page_eq,hps] at h
  refine ⟨.inr ?_,?_⟩
  · rw [hps]
    omega
  · rw [page_eq,page_eq,hps]
    omega

theorem page_of_top (h : a.virt + i < 2 ^ 64) (htop : ¬ a.page i + pageSize < 2 ^ 64) :
    a.page i + pageSize = 2 ^ 64 := by
  have hps : pageSize = 4096 := rfl
  rw [page_eq,hps] at htop ⊢
  omega

theorem share_last (h : a.virt + i + n < 2 ^ 64)
    (htop : a.page i + pageSize = 2 ^ 64) : a.share n i = n := by
  have hps : pageSize = 4096 := rfl
  rw [page_eq,hps] at htop
  rw [share,hps]
  omega

theorem answer_ne (h : i ≠ a.count) : answer i ≠ .ok a.count := by
  unfold answer
  split_ifs
  · exact nofun
  · exact fun he => h (Except.ok.inj he)

theorem ends_copy (h : a.virt + a.count < 2 ^ 64) (n : Nat) :
    ∀ i t, i + n = a.count → a.Enters i → a.copyBytes n none i t = some out →
    a.virt + a.count < 2 ^ 64 - pageSize ∨ out.2 ≠ .ok a.count →
    Ends a.turn ⟨a.page i,i,t⟩ out := by
  induction n using Nat.strongRecOn with
  | ind n ih =>
    intro i t hin he hs hgood
    have hps : pageSize = 4096 := rfl
    rcases Nat.eq_zero_or_pos n with rfl | hpos
    · obtain rfl := Option.some.inj hs
      obtain rfl : i = a.count := hin
      exact ends_done h (hgood.resolve_right fun hne => hne rfl) (.inr ⟨rfl,he⟩)
    have hn : n ≠ 0 := Nat.pos_iff_ne_zero.mp hpos
    have hi : i ≤ a.count := by omega
    obtain ⟨s1,s2,s3⟩ := share_spec (a := a) (i := i) hn
    cases hf : t.find a.pm (a.page i) with
    | none =>
      rw [copyBytes_stuck hn hf] at hs
      cases hs
    | some found =>
      obtain ⟨t',frame⟩ := found
      by_cases htop : a.page i + pageSize < 2 ^ 64
      · have hb : a.bytesInPage (a.page i) = a.share n i := by
          rw [bytesInPage_below h hi he htop,share,← hin,Nat.add_sub_cancel_left]
        have hb0 : a.bytesInPage (a.page i) ≠ 0 := hb ▸ Nat.pos_iff_ne_zero.mp s1
        cases frame with
        | none =>
          rw [copyBytes_fault hn hf] at hs
          obtain rfl := Option.some.inj hs
          exact .stop (turn_fault h hi hb0 hf)
        | some pfn =>
          rw [copyBytes_share hn hf] at hs
          have hturn := turn_share h hi he hb0 hf
          rw [hb,uadd_of_lt htop,uadd_of_lt (show i + a.share n i < 2 ^ 64 by omega)] at hturn
          refine (ends_again hturn).mpr ?_
          rcases s3 with hall | hnext
          · have hlow := hgood.resolve_right fun hne => by
              rw [hall,Nat.sub_self] at hs
              obtain rfl := Option.some.inj hs
              exact hne (congrArg Except.ok hin)
            have hend : a.virt + a.count ≤ a.page i + pageSize := by
              rw [page_eq]
              rw [share,hps] at hall
              omega
            rw [hall,Nat.sub_self] at hs
            obtain rfl := Option.some.inj hs
            rw [hall]
            refine ends_done h hlow ?_
            rcases Nat.lt_or_eq_of_le hend with hlt | heq
            · refine .inl ?_
              dsimp only
              rw [page_eq] at hlt ⊢
              rw [page_eq]
              omega
            · obtain ⟨e1,e2⟩ := page_entered heq
              exact .inr ⟨e2.symm,e1⟩
          · obtain ⟨e1,e2⟩ := page_entered hnext
            rw [← e2]
            exact ih (n - a.share n i) (by omega) _ _ (by omega) e1 hs hgood
      · have htop := page_of_top (by omega) htop
        have hb : a.bytesInPage (a.page i) ≠ 0 := by
          rw [bytesInPage_top h hi he htop]
          have hmod : (a.virt + i) % pageSize < pageSize := Nat.mod_lt _ (by decide)
          omega
        cases frame with
        | none =>
          rw [copyBytes_fault hn hf] at hs
          obtain rfl := Option.some.inj hs
          exact .stop (turn_fault h hi hb hf)
        | some pfn =>
          rw [copyBytes_share hn hf,share_last (by omega) htop,Nat.sub_self] at hs
          obtain rfl := Option.some.inj hs
          rcases hgood with hlow | hne
          · rw [page_eq] at htop
            omega
          · exact absurd (congrArg Except.ok hin) hne

theorem overruns (h : a.virt + a.count < 2 ^ 64) (hhigh : 2 ^ 64 - pageSize ≤ a.virt + a.count)
    (n : Nat) : ∀ i t, i + n = a.count → a.Enters i → a.copyBytes n none i t = some out →
    out.2 = .ok a.count → Ends a.turn ⟨a.page i,i,t⟩ out' →
    out.1.log.length < out'.1.log.length := by
  induction n using Nat.strongRecOn with
  | ind n ih =>
    intro i t hin he hs hok hends
    have hps : pageSize = 4096 := rfl
    have hi : i ≤ a.count := by omega
    by_cases htop : a.page i + pageSize < 2 ^ 64
    · have hn : n ≠ 0 := by
        rw [page_eq] at htop
        omega
      obtain ⟨s1,s2,s3⟩ := share_spec (a := a) (i := i) hn
      have hb : a.bytesInPage (a.page i) = a.share n i := by
        rw [bytesInPage_below h hi he htop,share,← hin,Nat.add_sub_cancel_left]
      have hb0 : a.bytesInPage (a.page i) ≠ 0 := hb ▸ Nat.pos_iff_ne_zero.mp s1
      have hnext : a.virt + (i + a.share n i) = a.page i + pageSize := by
        rcases s3 with hall | hnext
        · rw [page_eq] at htop ⊢
          rw [share,hps] at hall ⊢
          omega
        · exact hnext
      obtain ⟨e1,e2⟩ := page_entered hnext
      cases hf : t.find a.pm (a.page i) with
      | none =>
        rw [copyBytes_stuck hn hf] at hs
        cases hs
      | some found =>
        obtain ⟨t',frame⟩ := found
        cases frame with
        | none =>
          rw [copyBytes_fault hn hf] at hs
          obtain rfl := Option.some.inj hs
          exact absurd hok (answer_ne (by omega))
        | some pfn =>
          rw [copyBytes_share hn hf] at hs
          have hturn := turn_share h hi he hb0 hf
          rw [hb,uadd_of_lt htop,uadd_of_lt (show i + a.share n i < 2 ^ 64 by omega),← e2] at hturn
          exact ih (n - a.share n i) (by omega) _ _ (by omega) e1 hs hok ((ends_again hturn).mp hends)
    · have htop := page_of_top (by omega) htop
      have hmod : (a.virt + i) % pageSize < pageSize := Nat.mod_lt _ (by decide)
      have hb := bytesInPage_top h hi he htop
      have hb0 : a.bytesInPage (a.page i) ≠ 0 := by omega
      cases hf : t.find a.pm (a.page i) with
      | none => exact (not_ends_stuck (turn_stuck h hi hb0 hf) hends).elim
      | some found =>
        obtain ⟨t',frame⟩ := found
        have hlog := find_log hf
        cases frame with
        | none =>
          obtain rfl := (ends_stop (turn_fault h hi hb0 hf)).mp hends
          rcases Nat.eq_zero_or_pos n with rfl | hpos
          · obtain rfl := Option.some.inj hs
            dsimp only
            omega
          · rw [copyBytes_fault (by omega) hf] at hs
            obtain rfl := Option.some.inj hs
            exact absurd hok (answer_ne (by omega))
        | some pfn =>
          have hmore := ends_log ((ends_again (turn_share h hi he hb0 hf)).mp hends)
          dsimp only at hmore
          rw [memcpy_log] at hmore
          rcases Nat.eq_zero_or_pos n with rfl | hpos
          · obtain rfl := Option.some.inj hs
            dsimp only
            omega
          · have hn : n ≠ 0 := by omega
            rw [copyBytes_share hn hf,share_last (by omega) htop,Nat.sub_self] at hs
            obtain rfl := Option.some.inj hs
            rw [memcpy_log]
            rw [page_eq,hps] at htop
            rw [hps] at hb
            omega

theorem access_memory_iff (a : MemoryAccess) (t : Transfer) (out : Answer)
    (h : a.virt + a.count < 2 ^ 64) (hs : a.copyBytes a.count none 0 t = some out) :
    Ends a.turn (a.start t) out ↔
      a.virt + a.count < 2 ^ 64 - pageSize ∨ out.2 ≠ .ok a.count := by
  constructor
  · intro hends
    by_contra hno
    obtain ⟨hhigh,hok⟩ := not_or.mp hno
    exact lt_irrefl _ (overruns h (Nat.le_of_not_lt hhigh) a.count 0 t (Nat.zero_add _) (.inl rfl) hs
      (not_not.mp hok) hends)
  · exact ends_copy h a.count 0 t (Nat.zero_add _) (.inl rfl) hs

end Copy

theorem copyBytes_pages {a : MemoryAccess} {n i p : Nat} {frame : Option Nat} {t : Transfer}
    {out : Answer} (hs : a.copyBytes n frame i t = some out) (hp : .page p ∈ out.1.log) :
    .page p ∈ t.log ∨ ∃ j, j < i + n ∧ p = a.page j := by
  induction n generalizing frame i t with
  | zero =>
    obtain rfl := Option.some.inj hs
    exact .inl hp
  | succ n ih =>
    rw [copyBytes] at hs
    have look {t' : Transfer} {frame' : Option Nat}
        (hf : (if frame = none ∨ (a.virt + i) % pageSize = 0 then
          t.find a.pm (alignDown (a.virt + i) pageSize) else some (t,frame)) = some (t',frame'))
        (h : .page p ∈ t'.log) : .page p ∈ t.log ∨ p = a.page i := by
      split_ifs at hf
      · obtain ⟨⟨vm,res⟩,_,he⟩ := Option.map_eq_some_iff.mp hf
        cases he
        rcases List.mem_cons.mp h with he | h
        · exact .inr (Touch.page.inj he)
        · exact .inl h
      · cases hf
        exact .inl h
    have here : .page p ∈ t.log ∨ p = a.page i →
        .page p ∈ t.log ∨ ∃ j, j < i + (n + 1) ∧ p = a.page j := by
      rintro (h | h)
      · exact .inl h
      · exact .inr ⟨i,by omega,h⟩
    split at hs
    · cases hs
    · rename_i t' hf
      obtain rfl := Option.some.inj hs
      exact here (look hf hp)
    · rename_i t' pfn hf
      rcases ih hs with h | ⟨j,hj,he⟩
      · refine here (look hf ?_)
        unfold Transfer.move at h
        split_ifs at h
        · simpa using h
        · simpa using h
      · exact .inr ⟨j,by omega,he⟩

def topPages : VM := { smallMachine with tables := fun _ => [2 ^ 27 - 1], ptes := fun _ _ => ⟨5,3⟩ }

def emptyTransfer : Transfer := ⟨topPages,fun _ => 0,[]⟩

def crossing : MemoryAccess := ⟨kernelPm,2 ^ 64 - 0x2001,2,false⟩

theorem access_memory_iff_crossing : ∃ out, crossing.copyBytes 2 none 0 emptyTransfer = some out ∧
    Ends crossing.turn (crossing.start emptyTransfer) out := by
  have h : (crossing.copyBytes 2 none 0 emptyTransfer).isSome := by decide +kernel
  have hs := (Option.some_get h).symm
  exact ⟨_,hs,(access_memory_iff crossing emptyTransfer _ (by decide) hs).mpr (.inl (by decide))⟩

def topByte : MemoryAccess := ⟨kernelPm,2 ^ 64 - 0x1000,1,false⟩

theorem access_memory_overruns : ∃ out, topByte.copyBytes 1 none 0 emptyTransfer = some out ∧
    out.2 = .ok 1 ∧ ¬ Ends topByte.turn (topByte.start emptyTransfer) out := by
  have h : (topByte.copyBytes 1 none 0 emptyTransfer).isSome := by decide +kernel
  have hok : (((topByte.copyBytes 1 none 0 emptyTransfer).get h).2.toOption) = some 1 := by rfl
  have hs := (Option.some_get h).symm
  refine ⟨_,hs,?_,fun hends => ?_⟩
  · rfl
  · exact lt_irrefl _ (overruns (by decide) (by decide) 1 0 emptyTransfer rfl (.inl rfl) hs rfl hends)

end MemoryAccess

end SabaOS.Mem
