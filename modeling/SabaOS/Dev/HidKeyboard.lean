import SabaOS.Dev.HidFields

namespace SabaOS.Dev.Hid

open SabaOS.Lib

section Parsing

variable {table : KeycodeTable} {data : Nat → UInt8} {length : UInt16} {p : Parser} {items : List InputItem}

def Parser.Fresh (p : Parser) : Prop := ∀ item ∈ p.inputItems, item.previousValue = 0

theorem Pushed.fresh (table : KeycodeTable) : Pushed table fun item => item.previousValue = 0 :=
  ⟨fun _ => rfl,fun _ _ _ => rfl,fun _ _ => rfl⟩

theorem Parser.Fresh.visits {q : Parser} (hq : Visits (parseStep table data length) p q) (h : p.Fresh) :
    q.Fresh :=
  Parser.Pushed.visits (Pushed.fresh table) hq h

theorem Accepts.fresh (h : Accepts table data length [] items) : ∀ item ∈ items, item.previousValue = 0 := by
  obtain ⟨p,hp,hstop⟩ := Ends.last h
  have hfresh : p.Fresh := Parser.Fresh.visits hp fun item hmem => absurd hmem (by simp)
  unfold parseStep at hstop
  split_ifs at hstop
  have hfinish : p.finish = (true,items) := Turn.stop.inj hstop
  unfold Parser.finish at hfinish
  split_ifs at hfinish
  · cases hfinish
    exact hfresh
  · cases hfinish

end Parsing

def InputItem.slotUsage (item : InputItem) (bytes : List UInt8) (offset : Nat) : UInt32 :=
  item.usageMin + .ofNat (bits bytes offset item.sizeBits.toNat)

def InputItem.Unused (item : InputItem) (bytes : List UInt8) (offset : Nat) : Prop :=
  bits bytes offset item.sizeBits.toNat = 0

instance (item : InputItem) (bytes : List UInt8) (offset : Nat) : Decidable (item.Unused bytes offset) :=
  inferInstanceAs (Decidable (_ = _))

structure Keyboard (table : KeycodeTable) where
  items : List InputItem
  accepted : ∃ data length, Accepts table data length [] items

structure KeyReport {table : KeycodeTable} (keyboard : Keyboard table) extends Report keyboard.items where
  usages : ∀ pre item post, keyboard.items = pre ++ item :: post → item.isArray →
    page (item.slotUsage bytes (totalBits pre)) = keyboardPage

def press (code : UInt16) : InputEvent := ⟨evKey,code,1⟩

def release (code : UInt16) : InputEvent := ⟨evKey,code,0⟩

structure Follows (own was now : UInt16 → Prop) (k k' : Keys) : Prop where
  status : ∀ code, ¬own code → (k'.keyStatus code = true ↔ now code)
  pushed : ∃ es, k'.pushed = k.pushed ++ es ∧ (∀ code, ¬own code → now code → ¬was code → es.count (press code) = 1) ∧
    (∀ code, ¬own code → was code → ¬now code → es.count (release code) = 1) ∧
    ∀ e ∈ es, e.type = evKey → ¬own e.code →
      e = press e.code ∧ now e.code ∧ ¬was e.code ∨ e = release e.code ∧ was e.code ∧ ¬now e.code

namespace Keyboard

variable {table : KeycodeTable} (keyboard : Keyboard table)

def Own (code : UInt16) : Prop := ∃ item ∈ keyboard.items, item.Variable ∧ item.type = evKey ∧ item.code = code

variable {keyboard} in
def Listed (report : KeyReport keyboard) (code : UInt16) : Prop :=
  ∃ pre item post, keyboard.items = pre ++ item :: post ∧ item.isArray ∧
    ¬item.Unused report.bytes (totalBits pre) ∧ code = table.keycode (item.slotUsage report.bytes (totalBits pre))

def Tracks : (UInt16 → Prop) → List (KeyReport keyboard) → List InputItem → Keys → Prop
  | _,[],_,_ => True
  | was,report :: reports,items,k => ∃ r, event table report.bytes items k = some r ∧
    Follows keyboard.Own was (Listed report) k r.keys ∧ Tracks (Listed report) reports r.inputItems r.keys

variable {keyboard} in
structure Quiet (report : KeyReport keyboard) : Prop where
  returns : ∀ pre item post, keyboard.items = pre ++ item :: post → ¬item.Sized → totalBits pre % 8 = 0 →
    8 * report.bytes.length ≤ totalBits pre
  unlisted : ∀ code, ¬Listed report code

end Keyboard

section Quiet

variable {table : KeycodeTable} {item : InputItem} {items : List InputItem} {bytes : List UInt8} {offset : Nat}
variable {k k' k'' : Keys} {n : Int} {r : Reported} {own : UInt16 → Prop}

structure Aside (own : UInt16 → Prop) (k k' : Keys) : Prop where
  status : ∀ code, ¬own code → k'.keyStatus code = k.keyStatus code
  pushed : ∃ es, k'.pushed = k.pushed ++ es ∧ ∀ e ∈ es, e.type = evKey → own e.code

theorem Aside.refl : Aside own k k :=
  ⟨fun _ _ => rfl,[],(List.append_nil _).symm,fun e he => absurd he (by simp)⟩

theorem Aside.trans (h : Aside own k k') (h' : Aside own k' k'') : Aside own k k'' := by
  obtain ⟨es,hes,hown⟩ := h.pushed
  obtain ⟨es',hes',hown'⟩ := h'.pushed
  refine ⟨fun code hcode => (h'.status code hcode).trans (h.status code hcode),es ++ es',?_,?_⟩
  · rw [hes',hes,List.append_assoc]
  · intro e he
    rcases List.mem_append.mp he with he | he
    · exact hown e he
    · exact hown' e he

theorem evRel_ne : evRel ≠ evKey := by decide

theorem aside_report (h : item.type = evKey → own item.code) : Aside own k (item.report n k) := by
  unfold InputItem.report Keys.processButton
  split_ifs with hkey hstate hrel hn
  · refine ⟨?_,[⟨evKey,item.code,_⟩],rfl,?_⟩
    · intro code hcode
      refine Function.update_of_ne ?_ _ _
      rintro rfl
      exact hcode (h hkey)
    · intro e he _
      rw [List.mem_singleton.mp he]
      exact h hkey
  · exact .refl
  · refine ⟨fun _ _ => rfl,[⟨evRel,item.code,_⟩],rfl,?_⟩
    intro e he htype
    rw [List.mem_singleton.mp he] at htype
    exact absurd htype evRel_ne
  · exact .refl
  · exact .refl

theorem handle_quiet (hfresh : item.previousValue = 0) (harray : item.isArray → n = 0)
    (hown : item.Variable → item.type = evKey → own item.code) :
    (item.handle table n k).1 = item ∧ Aside own k (item.handle table n k).2 := by
  unfold InputItem.handle
  split_ifs with harr hconst
  · have hsame : item.changeSlot table n k = (item,k) := by
      unfold InputItem.changeSlot
      dsimp only
      rw [if_neg (not_not.mpr ((harray harr).trans hfresh.symm)),ite_self]
    rw [hsame]
    exact ⟨rfl,.refl⟩
  · refine ⟨rfl,aside_report (hown ⟨?_,?_⟩)⟩
    · simpa using harr
    · simpa using hconst
  · exact ⟨rfl,.refl⟩

theorem field_unused (h : InputItem.Placed bytes offset) (hend : offset + item.sizeBits.toNat ≤ 8 * bytes.length)
    (hunused : item.Unused bytes offset) (hfield : item.field bytes (.ofNat offset) = .value n) : n = 0 := by
  unfold InputItem.Unused at hunused
  have hsigned : ∀ size, bits bytes offset size = 0 → signed size (bits bytes offset size) = 0 :=
    fun size hzero => (signed_eq_zero bits_lt).mpr hzero
  by_cases hone : item.sizeBits = 1
  · rw [hone] at hunused
    rw [InputItem.field_bit h hone,show bits bytes offset 1 = 0 from hunused] at hfield
    cases hfield
    split_ifs <;> rfl
  · by_cases halign : offset % 8 = 0
    · by_cases hsized : item.Sized
      · rcases hsized with hsize | height | hsixteen
        · exact absurd hsize hone
        · rw [height,show UInt32.toNat 8 = 8 from rfl] at hunused
          rw [InputItem.field_byte h height halign] at hfield
          rw [← Field.value.inj hfield]
          exact hsigned 8 hunused
        · rw [hsixteen,show UInt32.toNat 16 = 16 from rfl] at hunused hend
          rw [InputItem.field_word h hsixteen halign hend] at hfield
          rw [← Field.value.inj hfield]
          exact hsigned 16 hunused
      · cases (InputItem.field_unreachable h hsized halign).symm.trans hfield
    · rw [InputItem.field_unaligned h hone halign] at hfield
      cases hfield
      rfl

theorem field_unreachable_iff (h : InputItem.Placed bytes offset) :
    item.field bytes (.ofNat offset) = .unreachable ↔ ¬item.Sized ∧ offset % 8 = 0 := by
  constructor
  · intro hfield
    rw [InputItem.field_eq h] at hfield
    split_ifs at hfield with hone halign height hsixteen
    refine ⟨?_,halign⟩
    rintro (hsize | hsize | hsize)
    · exact hone hsize
    · exact height hsize
    · exact hsixteen hsize
  · rintro ⟨hsized,halign⟩
    exact InputItem.field_unreachable h hsized halign

def AllAt (P : InputItem → Nat → Prop) (offset : Nat) (items : List InputItem) : Prop :=
  ∀ pre item post, items = pre ++ item :: post → P item (offset + totalBits pre)

theorem allAt_cons {P : InputItem → Nat → Prop} :
    AllAt P offset (item :: items) ↔ P item offset ∧ AllAt P (offset + item.sizeBits.toNat) items := by
  unfold AllAt
  rw [forall_split_cons]
  simp only [totalBits_cons,← Nat.add_assoc]
  exact Iff.rfl

def Passed (bytes : List UInt8) (item : InputItem) (offset : Nat) : Prop :=
  ¬item.Sized → offset % 8 = 0 → 8 * bytes.length ≤ offset

theorem quiet_loop (hpacket : bytes.length < 256) (hend : offset + totalBits items ≤ 8 * bytes.length)
    (hfresh : ∀ item ∈ items, item.previousValue = 0)
    (hown : ∀ item ∈ items, item.Variable → item.type = evKey → own item.code)
    (hpassed : AllAt (Passed bytes) offset items)
    (hunused : AllAt (fun item offset => item.isArray → item.Unused bytes offset) offset items) :
    ∃ r, eventLoop table bytes (.ofNat offset) items k = some r ∧ r.inputItems = items ∧ Aside own k r.keys := by
  induction items generalizing offset k with
  | nil => exact ⟨⟨[],k,[]⟩,rfl,rfl,.refl⟩
  | cons item items ih =>
    rw [totalBits_cons] at hend
    obtain ⟨hpass,hpassed⟩ := allAt_cons.mp hpassed
    obtain ⟨hslot,hunused⟩ := allAt_cons.mp hunused
    by_cases hinside : offset < 8 * bytes.length
    · have hplaced : InputItem.Placed bytes offset := ⟨hinside,hpacket⟩
      have hitem : offset + item.sizeBits.toNat ≤ 8 * bytes.length := by omega
      cases hf : item.field bytes (.ofNat offset) with
      | outside => exact absurd hf (field_not_outside hplaced hitem)
      | unreachable =>
        obtain ⟨hsized,halign⟩ := (field_unreachable_iff hplaced).mp hf
        exact absurd hinside (not_lt.mpr (hpass hsized halign))
      | value n =>
        obtain ⟨hsame,haside⟩ : (item.handle table n k).1 = item ∧ Aside own k (item.handle table n k).2 :=
          handle_quiet (hfresh item List.mem_cons_self) (fun harr => field_unused hplaced hitem (hslot harr) hf)
            (hown item List.mem_cons_self)
        obtain ⟨r,hr,hitems,hrest⟩ := ih (k := (item.handle table n k).2) (by omega)
          (fun i hi => hfresh i (List.mem_cons_of_mem _ hi)) (fun i hi => hown i (List.mem_cons_of_mem _ hi))
          hpassed hunused
        refine ⟨_,(eventLoop_cons hf).mpr ⟨r,hr,rfl⟩,?_,haside.trans hrest⟩
        rw [hsame,hitems]
    · refine ⟨⟨item :: items,k,[]⟩,?_,rfl,.refl⟩
      simp only [eventLoop,InputItem.field_outside (not_lt.mp hinside) (show offset < 2 ^ 32 by omega)]

theorem passed_of_some (hpacket : bytes.length < 256) (hend : offset + totalBits items ≤ 8 * bytes.length)
    (h : eventLoop table bytes (.ofNat offset) items k = some r) : AllAt (Passed bytes) offset items := by
  induction items generalizing offset k r with
  | nil =>
    intro pre item post hl
    exact absurd hl (by simp)
  | cons item items ih =>
    by_cases hinside : offset < 8 * bytes.length
    · rw [totalBits_cons] at hend
      have hplaced : InputItem.Placed bytes offset := ⟨hinside,hpacket⟩
      have hitem : offset + item.sizeBits.toNat ≤ 8 * bytes.length := by omega
      cases hf : item.field bytes (.ofNat offset) with
      | outside => exact absurd hf (field_not_outside hplaced hitem)
      | unreachable => cases (eventLoop_unreachable hf).symm.trans h
      | value n =>
        obtain ⟨r',hr',-⟩ := (eventLoop_cons hf).mp h
        refine allAt_cons.mpr ⟨?_,ih (by omega) hr'⟩
        intro hsized halign
        cases (InputItem.field_unreachable hplaced hsized halign).symm.trans hf
    · intro pre x post _ _ _
      exact le_trans (not_lt.mp hinside) (Nat.le_add_right _ _)

def Paired (es : List InputEvent) : Prop := (∃ e ∈ es, e.type = evKey) → ∃ code, release code ∈ es

theorem Paired.append {es es' : List InputEvent} (h : Paired es) (h' : Paired es') : Paired (es ++ es') := by
  rintro ⟨e,he,htype⟩
  rcases List.mem_append.mp he with he | he
  · obtain ⟨code,hcode⟩ := h ⟨e,he,htype⟩
    exact ⟨code,List.mem_append_left _ hcode⟩
  · obtain ⟨code,hcode⟩ := h' ⟨e,he,htype⟩
    exact ⟨code,List.mem_append_right _ hcode⟩

theorem paired_of_rel {e : InputEvent} (h : e.type = evRel) : Paired [e] := by
  rintro ⟨e',he',htype⟩
  rw [List.mem_singleton.mp he',h] at htype
  exact absurd htype evRel_ne

theorem paired_nil : Paired [] := by
  rintro ⟨e,he,-⟩
  exact absurd he (by simp)

theorem changeSlot_paired :
    ∃ es, (item.changeSlot table n k).2.pushed = k.pushed ++ es ∧ Paired es := by
  unfold InputItem.changeSlot
  dsimp only
  split_ifs
  · refine ⟨[press (table.keycode (item.usageMin + .ofInt n)),
      release (table.keycode (item.usageMin + .ofInt item.previousValue))],?_,?_⟩
    · simp [Keys.pushEvent,Keys.set,press,release]
    · exact fun _ => ⟨_,List.mem_cons_of_mem _ List.mem_cons_self⟩
  · exact ⟨[],(List.append_nil _).symm,paired_nil⟩
  · exact ⟨[],(List.append_nil _).symm,paired_nil⟩

theorem handle_paired (h : item.Variable → item.type ≠ evKey) :
    ∃ es, (item.handle table n k).2.pushed = k.pushed ++ es ∧ Paired es := by
  unfold InputItem.handle
  split_ifs with harr hconst
  · exact changeSlot_paired
  · have hkey : item.type ≠ evKey := h ⟨by simpa using harr,by simpa using hconst⟩
    unfold InputItem.report
    rw [if_neg hkey]
    split_ifs
    · exact ⟨[⟨evRel,item.code,.ofInt n⟩],rfl,paired_of_rel rfl⟩
    · exact ⟨[],(List.append_nil _).symm,paired_nil⟩
    · exact ⟨[],(List.append_nil _).symm,paired_nil⟩
  · exact ⟨[],(List.append_nil _).symm,paired_nil⟩

theorem eventLoop_paired {bitOffset : UInt32} (hkeys : ∀ item ∈ items, item.Variable → item.type ≠ evKey)
    (h : eventLoop table bytes bitOffset items k = some r) :
    ∃ es, r.keys.pushed = k.pushed ++ es ∧ Paired es := by
  induction items generalizing bitOffset k r with
  | nil =>
    cases h
    exact ⟨[],(List.append_nil _).symm,paired_nil⟩
  | cons item items ih =>
    simp only [eventLoop] at h
    split at h
    · cases h
      exact ⟨[],(List.append_nil _).symm,paired_nil⟩
    · cases h
    · rename_i n _
      split at h
      · cases h
      · rename_i r' hrest
        cases h
        obtain ⟨es,hes,hpair⟩ : ∃ es, (item.handle table n k).2.pushed = k.pushed ++ es ∧ Paired es :=
          handle_paired (hkeys item List.mem_cons_self)
        obtain ⟨es',hes',hpair'⟩ := ih (fun i hi => hkeys i (List.mem_cons_of_mem _ hi)) hrest
        refine ⟨es ++ es',?_,hpair.append hpair'⟩
        rw [hes',hes,List.append_assoc]

end Quiet

theorem Aside.follows {own was now : UInt16 → Prop} {k k' : Keys} (h : Aside own k k')
    (hwas : ∀ code, ¬was code) (hnow : ∀ code, ¬now code) (hup : ∀ code, ¬own code → k.keyStatus code = false) :
    Follows own was now k k' := by
  obtain ⟨es,hes,hown⟩ := h.pushed
  refine ⟨?_,es,hes,?_,?_,?_⟩
  · intro code hcode
    rw [h.status code hcode,hup code hcode]
    exact iff_of_false Bool.false_ne_true (hnow code)
  · exact fun code _ hlisted => absurd hlisted (hnow code)
  · exact fun code _ hlisted => absurd hlisted (hwas code)
  · exact fun e he htype hother => absurd (hown e he htype) hother

theorem Follows.unlisted {own was now : UInt16 → Prop} {k k' : Keys} (h : Follows own was now k k')
    (hwas : ∀ code, ¬was code) (hown : ∀ code, ¬own code) {es : List InputEvent}
    (hes : k'.pushed = k.pushed ++ es) (hpair : Paired es) : ∀ code, ¬now code := by
  intro code hnow
  obtain ⟨es',hes',hpress,-,honly⟩ := h.pushed
  obtain rfl : es = es' := List.append_cancel_left (hes.symm.trans hes')
  have hcount := hpress code (hown code) hnow (hwas code)
  have hmem : press code ∈ es := List.count_pos_iff.mp (by omega)
  obtain ⟨other,hother⟩ := hpair ⟨_,hmem,rfl⟩
  rcases honly _ hother rfl (hown _) with ⟨heq,-⟩ | ⟨-,hgone,-⟩
  · have hvalue : (0 : UInt32) = 1 := congrArg InputEvent.value heq
    exact absurd hvalue (by decide)
  · exact hwas _ hgone

namespace Keyboard

variable {table : KeycodeTable} {keyboard : Keyboard table} {report : KeyReport keyboard} {k : Keys}

theorem fresh : ∀ item ∈ keyboard.items, item.previousValue = 0 := by
  obtain ⟨data,length,h⟩ := keyboard.accepted
  exact h.fresh

theorem unused_iff : (∀ code, ¬Listed report code) ↔
    AllAt (fun item offset => item.isArray → item.Unused report.bytes offset) 0 keyboard.items := by
  constructor
  · intro h pre item post hl harr
    rw [Nat.zero_add]
    by_contra hused
    exact h _ ⟨pre,item,post,hl,harr,hused,rfl⟩
  · rintro h code ⟨pre,item,post,hl,harr,hused,-⟩
    have hunused := h pre item post hl harr
    rw [Nat.zero_add] at hunused
    exact hused hunused

theorem Quiet.event (h : Quiet report) : ∃ r, event table report.bytes keyboard.items k = some r ∧
    r.inputItems = keyboard.items ∧ Aside keyboard.Own k r.keys := by
  have hwhole : 0 + totalBits keyboard.items ≤ 8 * report.bytes.length := by
    rw [Nat.zero_add]
    exact report.whole
  refine quiet_loop report.packet hwhole fresh ?_ ?_ (unused_iff.mp h.unlisted)
  · exact fun item hmem hvar htype => ⟨item,hmem,hvar,htype,rfl⟩
  · intro pre item post hl
    rw [Nat.zero_add]
    exact h.returns pre item post hl

theorem tracks_of_quiet {was : UInt16 → Prop} {reports : List (KeyReport keyboard)} (hwas : ∀ code, ¬was code)
    (hup : ∀ code, ¬keyboard.Own code → k.keyStatus code = false) (h : ∀ report ∈ reports, Quiet report) :
    keyboard.Tracks was reports keyboard.items k := by
  induction reports generalizing was k with
  | nil => trivial
  | cons report reports ih =>
    have hquiet := h report List.mem_cons_self
    obtain ⟨r,hr,hitems,haside⟩ := hquiet.event (k := k)
    refine ⟨r,hr,haside.follows hwas hquiet.unlisted hup,?_⟩
    rw [hitems]
    refine ih hquiet.unlisted ?_ fun other hmem => h other (List.mem_cons_of_mem _ hmem)
    exact fun code hcode => (haside.status code hcode).trans (hup code hcode)

theorem quiet_of_tracks {was : UInt16 → Prop} {reports : List (KeyReport keyboard)} (hwas : ∀ code, ¬was code)
    (hkeys : ∀ item ∈ keyboard.items, item.Variable → item.type ≠ evKey)
    (h : keyboard.Tracks was reports keyboard.items k) : ∀ report ∈ reports, Quiet report := by
  induction reports generalizing was k with
  | nil =>
    intro report hmem
    exact absurd hmem (by simp)
  | cons report reports ih =>
    obtain ⟨r,hr,hfollows,hrest⟩ := h
    have hown : ∀ code, ¬keyboard.Own code := by
      rintro code ⟨item,hmem,hvar,htype,-⟩
      exact hkeys item hmem hvar htype
    have hquiet : Quiet report := by
      have hwhole : 0 + totalBits keyboard.items ≤ 8 * report.bytes.length := by
        rw [Nat.zero_add]
        exact report.whole
      refine ⟨?_,?_⟩
      · intro pre item post hl
        have hpassed := passed_of_some report.packet hwhole hr pre item post hl
        rwa [Nat.zero_add] at hpassed
      · obtain ⟨es,hes,hpair⟩ := eventLoop_paired hkeys hr
        exact hfollows.unlisted hwas hown hes hpair
    intro other hmem
    rcases List.mem_cons.mp hmem with rfl | hmem
    · exact hquiet
    · obtain ⟨r',hr',hitems,-⟩ := hquiet.event (k := k)
      cases hr.symm.trans hr'
      rw [hitems] at hrest
      exact ih hquiet.unlisted hrest other hmem

end Keyboard

theorem tracks_iff_quiet {table : KeycodeTable} (keyboard : Keyboard table) (reports : List (KeyReport keyboard)) :
    ((∀ report ∈ reports, Keyboard.Quiet report) →
      keyboard.Tracks (fun _ => False) reports keyboard.items {}) ∧
    ((∀ item ∈ keyboard.items, item.Variable → item.type ≠ evKey) →
      keyboard.Tracks (fun _ => False) reports keyboard.items {} → ∀ report ∈ reports, Keyboard.Quiet report) := by
  constructor
  · exact Keyboard.tracks_of_quiet (fun _ h => h) fun _ _ => rfl
  · exact Keyboard.quiet_of_tracks fun _ h => h

section TwoSlots

def letterTable : KeycodeTable := fun usage => if usage = 4 then 30 else if usage = 5 then 48 else 240

def letters : List UInt8 := [0x05,0x07,0x19,0x00,0x29,0x65,0x75,0x08,0x95,0x02,0x81,0x00]

def slot : InputItem := { sizeBits := 8, usageMin := 0x70000, usageMax := 0x70065, isArray := true }

def twoSlots : Keyboard letterTable where
  items := [slot,slot]
  accepted := ⟨fun i => letters.getD i 0,12,8,by decide +kernel⟩

def listing (low high : UInt8) : KeyReport twoSlots where
  bytes := [low,high]
  packet := show 2 < 256 by decide
  whole := show 16 ≤ 16 by decide
  usages := by
    have hsmall : ∀ n, n < 256 → page (0x70000 + .ofNat n) = keyboardPage := by decide +kernel
    have hbits : ∀ offset, bits [low,high] offset 8 < 256 := fun _ => bits_lt
    refine forall_split_cons.mpr ⟨fun _ => hsmall _ (hbits _),forall_split_cons.mpr ⟨fun _ => hsmall _ (hbits _),?_⟩⟩
    intro pre item post hl
    exact absurd hl (by simp)

theorem moved_released : ((event letterTable (listing 4 5).bytes twoSlots.items {}).bind fun r =>
      event letterTable (listing 5 0).bytes r.inputItems r.keys).map (fun r => (r.keys.keyStatus 48,r.keys.pushed)) =
      some (false,[press 30,release 240,press 48,release 240,press 48,release 30,press 240,release 48]) ∧
    Keyboard.Listed (listing 5 0) 48 ∧
    ¬twoSlots.Tracks (fun _ => False) [listing 4 5,listing 5 0] twoSlots.items {} := by
  refine ⟨by decide +kernel,⟨[],slot,[slot],rfl,rfl,by decide,by decide⟩,?_⟩
  intro h
  have hkeys : ∀ item ∈ twoSlots.items, item.Variable → item.type ≠ evKey := by
    intro item hmem
    have hslot : item = slot := by simpa [twoSlots] using hmem
    rw [hslot]
    exact fun _ => by decide
  have hquiet := Keyboard.quiet_of_tracks (fun _ h => h) hkeys h (listing 4 5) List.mem_cons_self
  exact hquiet.unlisted 30 ⟨[],slot,[slot],rfl,rfl,by decide,by decide⟩

end TwoSlots

end SabaOS.Dev.Hid
