import SabaOS.Mem.Frames

namespace SabaOS.Mem
open SabaOS.Klib SabaOS.Lib

inductive Fate where
  | stay
  | drop
  | relink (range : MappedRange)
  deriving DecidableEq

def Fate.next : Fate → Fate → Fate
  | f, .stay => f
  | .drop, _ => .drop
  | _, g => g

def Fate.ofRange : Option MappedRange → Fate
  | none => .drop
  | some r => .relink r

inductive Fated : Fate → Pte → Option Nat → Pte → Option Nat → Prop
  | absent {f : Fate} {e : Pte} {o : Option Nat} : e.present = false → Fated f e o e o
  | stay {e : Pte} {o : Option Nat} : Fated .stay e o e o
  | drop {e : Pte} {o : Option Nat} : e.present = true → Fated .drop e o Pte.zero none
  | relink {e e' : Pte} {o : Option Nat} {r : MappedRange} : e.present = true →
      e'.present = true → e'.flags = r.pageFlags → (o ≠ none → e'.pfn = e.pfn) →
      Fated (.relink r) e o e' (some r.id)

theorem Fated.trans {f g : Fate} {e e' e'' : Pte} {o o' o'' : Option Nat}
    (h : Fated f e o e' o') (h' : Fated g e' o' e'' o'') : Fated (f.next g) e o e'' o'' := by
  cases h with
  | absent ha =>
    cases h' with
    | absent _ => exact .absent ha
    | stay => exact .absent ha
    | drop hp => simp [ha] at hp
    | relink hp => simp [ha] at hp
  | stay => cases g <;> exact h'
  | drop hp =>
    cases h' with
    | absent _ => cases g <;> exact .drop hp
    | stay => exact .drop hp
    | drop hz => exact absurd hz (by decide)
    | relink hz => exact absurd hz (by decide)
  | relink hp hp' hf hpf =>
    cases h' with
    | absent ha => simp [ha] at hp'
    | stay => exact .relink hp hp' hf hpf
    | drop _ => exact .drop hp
    | relink _ hp'' hf' hpf' => exact .relink hp hp'' hf' fun ho => (hpf' (by simp)).trans (hpf ho)

theorem Fated.cases {f : Fate} {e e' : Pte} {o o' : Option Nat} (h : Fated f e o e' o') :
    (e.present = false ∧ e' = e ∧ o' = o) ∨ (f = .stay ∧ e' = e ∧ o' = o) ∨
    (f = .drop ∧ e.present = true ∧ e' = Pte.zero ∧ o' = none) ∨
    ∃ r, f = .relink r ∧ e.present = true ∧ e'.present = true ∧ e'.flags = r.pageFlags ∧
      (o ≠ none → e'.pfn = e.pfn) ∧ o' = some r.id := by
  cases h with
  | absent ha => exact .inl ⟨ha,rfl,rfl⟩
  | stay => exact .inr (.inl ⟨rfl,rfl,rfl⟩)
  | drop hp => exact .inr (.inr (.inl ⟨rfl,hp,rfl,rfl⟩))
  | @relink _ _ _ r hp hp' hf hpf => exact .inr (.inr (.inr ⟨r,rfl,hp,hp',hf,hpf,rfl⟩))

def VM.Pooled (vm : VM) (pm pfn : Nat) : Prop :=
  vm.chains.link pfn = some .freelist ∨ ∃ id, vm.chains.link pfn = some (.range pm id)

theorem VM.Links.pooled {vm vm' : VM} {pm key pfn : Nat} {e : Pte} {list : ListId} {page : Page}
    (l : VM.Links vm vm' pm key e pfn (some list) page)
    (hl : list = .freelist ∨ ∃ id, list = .range pm id) (q : Nat) (h : vm.Pooled pm q) :
    vm'.Pooled pm q := by
  unfold VM.Pooled
  rw [l.link]
  split_ifs
  · simpa using hl
  · exact h

structure Ran (vm vm' : VM) (pm : Nat) (own own' : Owning) (fate : Nat → Fate) : Prop where
  linked : Linked vm' own'
  fated : ∀ key, key < 2 ^ 35 →
    Fated (fate key) (vm.entry pm key) (own pm key) (vm'.entry pm key) (own' pm key)
  others : ∀ pm' key, ¬ (pm' = pm ∧ key < 2 ^ 35) → own' pm' key = own pm' key
  entries : ∀ pm' key, ¬ (half pm' key = pm ∧ key < 2 ^ 35) →
    vm'.entry pm' key = vm.entry pm' key
  links : ∀ pfn, vm.chains.link pfn ≠ some .freelist →
    (∀ id, vm.chains.link pfn ≠ some (.range pm id)) →
    vm'.chains.link pfn = vm.chains.link pfn ∧ vm'.pages pfn = vm.pages pfn
  pool : ∀ pfn, vm.Pooled pm pfn → vm'.Pooled pm pfn
  mem : vm'.mem = vm.mem
  files : vm'.files = vm.files
  regions : vm'.regions = vm.regions
  spaces : vm'.spaces = vm.spaces
  nextPm : vm'.nextPm = vm.nextPm
  tables : vm'.tables = vm.tables

namespace Ran

variable {vm vm' vm'' : VM} {pm : Nat} {own own' own'' : Owning} {f g : Nat → Fate}

theorem refl (h : Linked vm own) : Ran vm vm pm own own fun _ => .stay where
  linked := h
  fated _ _ := .stay
  others _ _ _ := rfl
  entries _ _ _ := rfl
  links _ _ _ := ⟨rfl,rfl⟩
  pool _ h := h
  mem := rfl
  files := rfl
  regions := rfl
  spaces := rfl
  nextPm := rfl
  tables := rfl

theorem trans (h : Ran vm vm' pm own own' f) (h' : Ran vm' vm'' pm own' own'' g) :
    Ran vm vm'' pm own own'' fun key => (f key).next (g key) where
  linked := h'.linked
  fated key hk := (h.fated key hk).trans (h'.fated key hk)
  others pm' key hn := (h'.others pm' key hn).trans (h.others pm' key hn)
  entries pm' key hn := (h'.entries pm' key hn).trans (h.entries pm' key hn)
  links pfn h1 h2 := by
    obtain ⟨e1,e2⟩ := h.links pfn h1 h2
    obtain ⟨f1,f2⟩ := h'.links pfn (by rw [e1]; exact h1) (fun id => by rw [e1]; exact h2 id)
    exact ⟨f1.trans e1,f2.trans e2⟩
  pool pfn hp := h'.pool pfn (h.pool pfn hp)
  mem := h'.mem.trans h.mem
  files := h'.files.trans h.files
  regions := h'.regions.trans h.regions
  spaces := h'.spaces.trans h.spaces
  nextPm := h'.nextPm.trans h.nextPm
  tables := h'.tables.trans h.tables

end Ran

def Foreign (vm : VM) (own : Owning) (pm key : Nat) : Prop :=
  (vm.entry pm key).present = true → own pm key = none →
    findPage vm.regions (vm.entry pm key).pfn = some none

section Page

variable {vm vm' : VM} {own : Owning} {pm virt : Nat} {range : Option MappedRange}

theorem set_fated {o : Option Nat} {f : Fate} {e : Pte}
    (hen : ∀ pm' key', vm'.entry pm' key' =
      if half pm' key' = half pm (virt / pageSize) ∧ key' = virt / pageSize then e
      else vm.entry pm' key')
    (hf : Fated f (vm.entry pm (virt / pageSize)) (own pm (virt / pageSize)) e o) (key : Nat)
    (hkey : key < 2 ^ 35) :
    Fated (if key = virt / pageSize then f else .stay) (vm.entry pm key) (own pm key)
      (vm'.entry pm key) (own.set pm (virt / pageSize) o pm key) := by
  by_cases hv : key = virt / pageSize
  · subst hv
    simpa [hen,Owning.set] using hf
  · simpa [hen,hv,Owning.set] using Fated.stay

theorem set_entries {e : Pte} (hk : virt / pageSize < 2 ^ 35)
    (hen : ∀ pm' key', vm'.entry pm' key' =
      if half pm' key' = half pm (virt / pageSize) ∧ key' = virt / pageSize then e
      else vm.entry pm' key') (pm' key : Nat) (hn : ¬ (half pm' key = pm ∧ key < 2 ^ 35)) :
    vm'.entry pm' key = vm.entry pm' key := by
  rw [hen,if_neg]
  rintro ⟨h1,rfl⟩
  exact hn ⟨h1.trans (half_user hk),hk⟩

theorem set_others {o : Option Nat} (hk : virt / pageSize < 2 ^ 35) (pm' key : Nat)
    (hn : ¬ (pm' = pm ∧ key < 2 ^ 35)) :
    own.set pm (virt / pageSize) o pm' key = own pm' key := by
  unfold Owning.set
  rw [if_neg]
  rintro ⟨rfl,rfl⟩
  exact hn ⟨rfl,hk⟩

theorem set_ran {o : Option Nat} {f : Fate} {e : Pte} (hk : virt / pageSize < 2 ^ 35)
    (hl : Linked vm' (own.set pm (virt / pageSize) o))
    (hen : ∀ pm' key', vm'.entry pm' key' =
      if half pm' key' = half pm (virt / pageSize) ∧ key' = virt / pageSize then e
      else vm.entry pm' key')
    (hf : Fated f (vm.entry pm (virt / pageSize)) (own pm (virt / pageSize)) e o)
    (hlinks : ∀ pfn, vm.chains.link pfn ≠ some .freelist →
      (∀ id, vm.chains.link pfn ≠ some (.range pm id)) →
      vm'.chains.link pfn = vm.chains.link pfn ∧ vm'.pages pfn = vm.pages pfn)
    (hpool : ∀ pfn, vm.Pooled pm pfn → vm'.Pooled pm pfn)
    (hm : vm'.mem = vm.mem ∧ vm'.files = vm.files ∧ vm'.regions = vm.regions ∧
      vm'.spaces = vm.spaces ∧ vm'.nextPm = vm.nextPm ∧ vm'.tables = vm.tables) :
    Ran vm vm' pm own (own.set pm (virt / pageSize) o)
      fun key => if key = virt / pageSize then f else .stay := by
  obtain ⟨h1,h2,h3,h4,h5,h6⟩ := hm
  exact ⟨hl,set_fated hen hf,set_others hk,set_entries hk hen,hlinks,hpool,h1,h2,h3,h4,h5,h6⟩

theorem present_of_flags {r : MappedRange} (pfn : Nat) (h : ¬ r.pageFlags &&& pagePresent = 0) :
    (Pte.mk pfn r.pageFlags).present = true := by
  simpa [Pte.present] using h

section Owned

variable (h : Linked vm own) (hv : virt < 2 ^ 47) (ha : virt % pageSize = 0)
include h hv ha

theorem relink_ran {r : MappedRange} {vm1 : VM} {pfn : Nat}
    (hfl : ¬ r.pageFlags &&& pagePresent = 0)
    (hpr : (vm.entry pm (virt / pageSize)).present = true)
    (hp : (vm.chains.link pfn = some .freelist ∧ own pm (virt / pageSize) = none) ∨
      (∃ id, own pm (virt / pageSize) = some id) ∧ (vm.entry pm (virt / pageSize)).pfn = pfn)
    (h1 : vm1 = { vm.setPage pfn ⟨false,(vm.pages pfn).mappedAddr⟩ with
      chains := vm.chains.unlink pfn }) :
    Ran vm ((vm1.adopt pm r.id pfn virt).setEntry pm (virt / pageSize) ⟨pfn,r.pageFlags⟩) pm own
      (own.set pm (virt / pageSize) (some r.id))
      fun key => if key = virt / pageSize then .relink r else .stay := by
  have hk : virt / pageSize < 2 ^ 35 := by simp only [pageSize]; omega
  have hk' : virt / pageSize < 2 ^ 36 := by omega
  have haddr : pageAddr (virt / pageSize) = virt := by
    rw [pageAddr,if_pos hk]
    simp only [pageSize] at *
    omega
  have hen := VM.entry_setEntry (vm1.adopt pm r.id pfn virt) pm (virt / pageSize) ⟨pfn,r.pageFlags⟩
    (by rw [h1]; exact VM.hasTable_of_present hpr)
  have hen' : ∀ pm' key', ((vm1.adopt pm r.id pfn virt).setEntry pm (virt / pageSize)
      ⟨pfn,r.pageFlags⟩).entry pm' key' =
      if half pm' key' = half pm (virt / pageSize) ∧ key' = virt / pageSize then
        ⟨pfn,r.pageFlags⟩ else vm.entry pm' key' := by
    intro pm' key'
    rw [hen,h1]
    rfl
  have hlinks : VM.Links vm ((vm1.adopt pm r.id pfn virt).setEntry pm (virt / pageSize)
      ⟨pfn,r.pageFlags⟩) pm (virt / pageSize) ⟨pfn,r.pageFlags⟩ pfn (some (.range pm r.id))
      ⟨false,virt⟩ := by
    refine ⟨by rw [h1]; rfl,hen',?_,?_⟩
    · intro q
      by_cases hq : q = pfn <;> simp [h1,VM.setEntry,VM.adopt,VM.setPage,hq]
    · intro q
      by_cases hq : q = pfn <;> simp [h1,VM.setEntry,VM.adopt,VM.setPage,hq]
  refine set_ran hk (h.take ⟨half_user hk,hk'⟩ hp hlinks rfl (present_of_flags _ hfl)
    (by rw [haddr])) hen' ?_ ?_ (hlinks.pooled (.inr ⟨_,rfl⟩))
    (by rw [h1]; exact ⟨rfl,rfl,rfl,rfl,rfl,rfl⟩)
  · refine .relink hpr (present_of_flags _ hfl) rfl fun ho => ?_
    rcases hp with ⟨_,hn⟩ | ⟨_,hpf⟩
    · exact absurd hn ho
    · exact hpf.symm
  · intro q hq1 hq2
    have hne : q ≠ pfn := by
      rintro rfl
      rcases hp with ⟨hf,_⟩ | ⟨⟨id,ho⟩,rfl⟩
      · exact hq1 hf
      · exact hq2 id (h.owned _ _ _ ho).2.1
    rw [hlinks.link,hlinks.page,if_neg hne,if_neg hne]
    exact ⟨rfl,rfl⟩

omit ha in
theorem drop_ran {pfn : Nat} (hpr : (vm.entry pm (virt / pageSize)).present = true)
    (ho : ∃ id, own pm (virt / pageSize) = some id)
    (hpf : (vm.entry pm (virt / pageSize)).pfn = pfn) (hnf : (vm.pages pfn).free = false)
    (hr : VM.dropPage { vm with chains := vm.chains.unlink pfn } pm virt (some pfn) = some vm') :
    Ran vm vm' pm own (own.set pm (virt / pageSize) none)
      fun key => if key = virt / pageSize then .drop else .stay := by
  have hk : virt / pageSize < 2 ^ 35 := by simp only [pageSize]; omega
  simp only [VM.dropPage,VM.freePage,pageKey_user hv] at hr
  rw [if_neg (by simpa [VM.setEntry] using hnf),Option.some.injEq] at hr
  have hlinks : VM.Links vm vm' pm (virt / pageSize) Pte.zero pfn (some .freelist) ⟨true,0⟩ := by
    subst hr
    refine ⟨rfl,?_,?_,?_⟩
    · exact VM.entry_setEntry { vm with chains := vm.chains.unlink pfn } pm (virt / pageSize)
        Pte.zero (VM.hasTable_of_present hpr)
    · intro q
      by_cases hq : q = pfn <;> simp [VM.setEntry,hq]
    · intro q
      by_cases hq : q = pfn <;> simp [VM.setEntry,VM.setPage,hq]
  refine set_ran hk (h.release ⟨half_user hk,by omega⟩ (.inr ⟨ho,hpf⟩) hlinks rfl)
    hlinks.entry (.drop hpr) ?_ (hlinks.pooled (.inl rfl)) (hr ▸ ⟨rfl,rfl,rfl,rfl,rfl,rfl⟩)
  intro q _ hq2
  have hne : q ≠ pfn := by
    rintro rfl
    obtain ⟨id,ho⟩ := ho
    exact hq2 id (hpf ▸ (h.owned _ _ _ ho).2.1)
  rw [hlinks.link,hlinks.page,if_neg hne,if_neg hne]
  exact ⟨rfl,rfl⟩

omit ha in
theorem dropForeign_ran (hpr : (vm.entry pm (virt / pageSize)).present = true)
    (hn : own pm (virt / pageSize) = none) (hr : vm.dropPage pm virt none = some vm') :
    Ran vm vm' pm own (own.set pm (virt / pageSize) none)
      fun key => if key = virt / pageSize then .drop else .stay := by
  have hk : virt / pageSize < 2 ^ 35 := by simp only [pageSize]; omega
  simp only [VM.dropPage,pageKey_user hv] at hr
  cases hr
  have hen := VM.entry_setEntry vm pm (virt / pageSize) Pte.zero
    (VM.hasTable_of_present hpr)
  refine set_ran hk ?_ hen (.drop hpr) (fun _ _ _ => ⟨rfl,rfl⟩) (fun _ h => h)
    ⟨rfl,rfl,rfl,rfl,rfl,rfl⟩
  rw [Owning.set_self hn]
  exact h.setForeign ⟨half_user hk,by omega⟩ hn rfl hen rfl rfl

theorem invalidatePage_ran (hforeign : Foreign vm own pm (virt / pageSize))
    (hr : vm.invalidatePage pm virt range = some vm') :
    ∃ own', Ran vm vm' pm own own'
      fun key => if key = virt / pageSize then .ofRange range else .stay := by
  unfold VM.invalidatePage at hr
  rw [pageKey_user hv] at hr
  by_cases hpr : (vm.entry pm (virt / pageSize)).present = true
  swap
  · rw [if_neg hpr] at hr
    cases hr
    refine ⟨own,{ Ran.refl h with fated := fun key _ => ?_ }⟩
    split_ifs with hkey
    · exact .absent (by simpa [hkey] using hpr)
    · exact .stay
  rw [if_pos hpr] at hr
  obtain ⟨page,hpage,hr⟩ := Option.bind_eq_some_iff.mp hr
  obtain ⟨vm1,hd,hr⟩ := Option.bind_eq_some_iff.mp hr
  cases ho : own pm (virt / pageSize) with
  | some id =>
    obtain ⟨_,hl,_⟩ := h.owned _ _ _ ho
    rw [h.managed _ (by simp [hl])] at hpage
    cases hpage
    have hnf : (vm.pages (vm.entry pm (virt / pageSize)).pfn).free = false := by
      simpa [hl] using (h.free (vm.entry pm (virt / pageSize)).pfn).not
    simp only [VM.detachPage,VM.removeLink,hnf,hl] at hd
    cases hd
    cases range with
    | none => exact ⟨_,drop_ran h hv hpr ⟨id,ho⟩ rfl hnf hr⟩
    | some r =>
      simp only [VM.relinkPage] at hr
      split_ifs at hr with hfl
      cases hr
      rw [pageKey_user hv]
      refine ⟨_,relink_ran h hv ha hfl hpr (.inr ⟨⟨id,ho⟩,rfl⟩) ?_⟩
      simp only [VM.setPage]
      congr 1
      funext q
      by_cases hq : q = (vm.entry pm (virt / pageSize)).pfn
      · subst hq
        rw [Function.update_self,← hnf]
      · rw [Function.update_of_ne hq]
  | none =>
    rw [hforeign hpr ho] at hpage
    cases hpage
    cases hd
    cases range with
    | none => exact ⟨_,dropForeign_ran h hv hpr ho hr⟩
    | some r =>
      simp only [VM.relinkPage] at hr
      split_ifs at hr with hfl
      obtain ⟨⟨vm2,p⟩,hal,rfl⟩ := Option.map_eq_some_iff.mp hr
      obtain ⟨hf,h2⟩ := VM.allocPage_eq hal
      rw [pageKey_user hv]
      exact ⟨_,relink_ran h hv ha hfl hpr (.inl ⟨hf,ho⟩) h2⟩

end Owned

end Page

theorem Ran.congr {vm vm' : VM} {pm : Nat} {own own' : Owning} {f g : Nat → Fate}
    (h : Ran vm vm' pm own own' f) (hfg : ∀ key, f key = g key) : Ran vm vm' pm own own' g := by
  rwa [← funext hfg]

theorem Ran.foreign {vm vm' : VM} {pm : Nat} {own own' : Owning} {f : Nat → Fate} {key : Nat}
    (h : Ran vm vm' pm own own' f) (hk : key < 2 ^ 35) (hf : Foreign vm own pm key) :
    Foreign vm' own' pm key := by
  intro hp hn
  rw [h.regions]
  rcases (h.fated key hk).cases with ⟨_,he,ho⟩ | ⟨_,he,ho⟩ | ⟨_,_,he,ho⟩ | ⟨r,_,_,_,_,_,ho⟩
  · rw [he] at hp ⊢
    exact hf hp (ho ▸ hn)
  · rw [he] at hp ⊢
    exact hf hp (ho ▸ hn)
  · rw [he] at hp
    exact absurd hp (by decide)
  · simp [ho] at hn

def Effect.fate (key : Nat) : Effect → Fate
  | .invalidatePages base length range =>
      if base ≤ key * pageSize ∧ key * pageSize < base + length then .ofRange range else .stay
  | .delete _ => .stay

def fates (key : Nat) : List Effect → Fate
  | [] => .stay
  | e :: effects => (e.fate key).next (fates key effects)

theorem Fate.stay_next (f : Fate) : Fate.stay.next f = f := by
  cases f <;> rfl

theorem Fate.next_assoc (f g k : Fate) : (f.next g).next k = f.next (g.next k) := by
  cases f <;> cases g <;> cases k <;> rfl

theorem Fate.next_eq_stay {f g : Fate} : f.next g = .stay ↔ f = .stay ∧ g = .stay := by
  cases f <;> cases g <;> simp [Fate.next]

theorem fates_append (key : Nat) (a b : List Effect) :
    fates key (a ++ b) = (fates key a).next (fates key b) := by
  induction a with
  | nil => exact (Fate.stay_next _).symm
  | cons e a ih => simp only [List.cons_append,fates,ih,Fate.next_assoc]

def Effect.Fits : Effect → Prop
  | .invalidatePages base length _ =>
      pageSize ∣ base ∧ pageSize ∣ length ∧ base + length ≤ 2 ^ 47
  | .delete _ => True

section Effects

variable {pm : Nat} {vm' : VM}

theorem invalidateFrom_ran {range : Option MappedRange} {page : Nat} (n : Nat) :
    ∀ (i : Nat) (vm : VM) (own : Owning), Linked vm own → page + i + n ≤ 2 ^ 35 →
    (∀ key, page + i ≤ key → key < page + i + n → Foreign vm own pm key) →
    vm.invalidateFrom pm range (page * pageSize) i n = some vm' →
    ∃ own', Ran vm vm' pm own own' fun key =>
      if page + i ≤ key ∧ key < page + i + n then .ofRange range else .stay := by
  induction n with
  | zero =>
    intro i vm own h _ _ hr
    cases hr
    refine ⟨own,(Ran.refl h).congr fun key => ?_⟩
    rw [if_neg (by omega)]
  | succ n ih =>
    intro i vm own h hle hf hr
    obtain ⟨vm1,h1,h2⟩ := Option.bind_eq_some_iff.mp hr
    have hlt : (page + i) * pageSize < 2 ^ 47 := by
      simp only [pageSize]
      omega
    have hu : uadd (page * pageSize) (i * pageSize) = (page + i) * pageSize := by
      rw [Nat.add_mul] at *
      exact uadd_of_lt (by omega)
    have hdiv : (page + i) * pageSize / pageSize = page + i :=
      Nat.mul_div_cancel _ (by decide)
    rw [hu] at h1
    obtain ⟨own1,r1⟩ := invalidatePage_ran h hlt (Nat.mul_mod_left _ _)
      (by rw [hdiv]; exact hf _ (by omega) (by omega)) h1
    rw [hdiv] at r1
    obtain ⟨own2,r2⟩ := ih (i + 1) vm1 own1 r1.linked (by omega)
      (fun key k1 k2 => r1.foreign (by omega) (hf key (by omega) (by omega))) h2
    refine ⟨own2,(r1.trans r2).congr fun key => ?_⟩
    by_cases hk : key = page + i
    · rw [if_pos hk,if_neg (by omega),if_pos (by omega)]
      rfl
    · rw [if_neg hk,Fate.stay_next]
      congr 1
      simp only [eq_iff_iff]
      omega

theorem invalidatePages_ran {range : Option MappedRange} {base length : Nat} {vm : VM}
    {own : Owning} (h : Linked vm own) (hfit : (Effect.invalidatePages base length range).Fits)
    (hf : ∀ key, base ≤ key * pageSize → key * pageSize < base + length → Foreign vm own pm key)
    (hr : vm.invalidatePages pm base length range = some vm') :
    ∃ own', Ran vm vm' pm own own'
      fun key => (Effect.invalidatePages base length range).fate key := by
  obtain ⟨⟨page,rfl⟩,⟨m,rfl⟩,hle⟩ := hfit
  have hps : pageSize = 4096 := rfl
  have hn : alignUp (pageSize * m) pageSize / pageSize = m := by
    rw [alignUp,if_neg (by rw [Nat.mul_mod_right]; simp),Nat.mul_div_cancel_left _ (by decide)]
  have hiff (key : Nat) : (page + 0 ≤ key ∧ key < page + 0 + m) ↔
      (pageSize * page ≤ key * pageSize ∧ key * pageSize < pageSize * page + pageSize * m) := by
    rw [hps]
    omega
  simp only [VM.invalidatePages,hn,Nat.mul_comm pageSize page] at hr
  obtain ⟨own',r⟩ := invalidateFrom_ran m 0 vm own h (by rw [hps] at hle; omega)
    (fun key k1 k2 => hf key ((hiff key).mp ⟨k1,k2⟩).1 ((hiff key).mp ⟨k1,k2⟩).2) hr
  refine ⟨own',r.congr fun key => ?_⟩
  simp only [Effect.fate,hiff]

def Retires (own : Owning) (pm : Nat) (effects : List Effect) : Prop :=
  ∀ pre r post, effects = pre ++ .delete r :: post →
    (∀ base length x, .invalidatePages base length (some x) ∈ pre → x.id ≠ r.id) ∧
    ∀ key, key < 2 ^ 35 → own pm key = some r.id → fates key pre ≠ .stay

theorem Ran.owner {vm : VM} {own own' : Owning} {f : Nat → Fate} {key id : Nat}
    (h : Ran vm vm' pm own own' f) (hl : Linked vm own) (hk : key < 2 ^ 35)
    (ho : own' pm key = some id) :
    (f key = .stay ∧ own pm key = some id) ∨
    ∃ r, f key = .relink r ∧ r.id = id ∧ (vm.entry pm key).present = true := by
  rcases (h.fated key hk).cases with ⟨ha,_,he⟩ | ⟨hf,_,he⟩ | ⟨_,_,_,he⟩ | ⟨r,hf,hp,_,_,_,he⟩
  · have hp := (hl.owned pm key id (he ▸ ho)).1
    simp [ha] at hp
  · exact .inl ⟨hf,he ▸ ho⟩
  · simp [he] at ho
  · exact .inr ⟨r,hf,by simpa [he] using ho,hp⟩

theorem Retires.tail {vm : VM} {own own' : Owning} {e : Effect} {effects : List Effect}
    (hd : Retires own pm (e :: effects)) (hl : Linked vm own)
    (h : Ran vm vm' pm own own' fun key => e.fate key) : Retires own' pm effects := by
  rintro pre r post rfl
  obtain ⟨h1,h2⟩ := hd (e :: pre) r post rfl
  refine ⟨fun base length x hx => h1 base length x (by simp [hx]),fun key hk ho hs => ?_⟩
  rcases h.owner hl hk ho with ⟨hf,ho'⟩ | ⟨x,hf,hid,_⟩
  · refine h2 key hk ho' ?_
    simp only [fates,hf,hs]
    rfl
  · cases e with
    | delete _ => simp [Effect.fate] at hf
    | invalidatePages base length range =>
      simp only [Effect.fate] at hf
      split_ifs at hf
      cases range with
      | none => simp [Fate.ofRange] at hf
      | some y =>
        cases hf
        exact h1 base length x (by simp) hid

theorem runEffect_ran {vm : VM} {own : Owning} {e : Effect} (hpm : pm ≠ kernelPm)
    (h : Linked vm own) (hfit : e.Fits)
    (hf : ∀ key, key < 2 ^ 35 → e.fate key ≠ .stay → Foreign vm own pm key)
    (hd : ∀ r, e = .delete r → ∀ key, key < 2 ^ 35 → own pm key ≠ some r.id)
    (hr : vm.runEffect pm e = some vm') :
    ∃ own', Ran vm vm' pm own own' fun key => e.fate key := by
  cases e with
  | invalidatePages base length range =>
    refine invalidatePages_ran h hfit (fun key k1 k2 => ?_) hr
    have hk : key < 2 ^ 35 := by
      have hle := hfit.2.2
      simp only [pageSize] at k1 k2
      omega
    refine hf key hk ?_
    rw [Effect.fate,if_pos ⟨k1,k2⟩]
    cases range <;> simp [Fate.ofRange]
  | delete r =>
    have hnil : vm.chains.lists (.range pm r.id) = [] := by
      rw [List.eq_nil_iff_forall_not_mem]
      intro p hp
      obtain ⟨key,ho,_⟩ := h.listed p pm r.id ((vm.chains.mem_iff _ _).mp hp)
      have hk : key < 2 ^ 35 := by
        by_contra hge
        have := (h.placed _ _ _ ho).1
        rw [half,if_neg hge] at this
        exact hpm this.symm
      exact hd r rfl key hk ho
    simp only [VM.runEffect,VM.deleteRange,hnil,VM.freePages] at hr
    cases hr
    exact ⟨own,Ran.refl h⟩

theorem runEffects_ran (hpm : pm ≠ kernelPm) (effects : List Effect) :
    ∀ (vm : VM) (own : Owning), Linked vm own → (∀ e ∈ effects, e.Fits) →
    (∀ key, key < 2 ^ 35 → fates key effects ≠ .stay → Foreign vm own pm key) →
    Retires own pm effects → vm.runEffects pm effects = some vm' →
    ∃ own', Ran vm vm' pm own own' fun key => fates key effects := by
  induction effects with
  | nil =>
    intro vm own h _ _ _ hr
    cases hr
    exact ⟨own,Ran.refl h⟩
  | cons e effects ih =>
    intro vm own h hfit hf hd hr
    obtain ⟨vm1,h1,h2⟩ := Option.bind_eq_some_iff.mp hr
    obtain ⟨own1,r1⟩ := runEffect_ran hpm h (hfit e (by simp))
      (fun key hk hne => hf key hk fun hs => hne (Fate.next_eq_stay.mp hs).1)
      (fun r he key hk ho => (hd [] r effects (by simp [he])).2 key hk ho rfl) h1
    obtain ⟨own2,r2⟩ := ih vm1 own1 r1.linked (fun x hx => hfit x (by simp [hx]))
      (fun key hk hne => r1.foreign hk (hf key hk fun hs => hne (Fate.next_eq_stay.mp hs).2))
      (hd.tail h r1) h2
    exact ⟨own2,r1.trans r2⟩

end Effects

end SabaOS.Mem
