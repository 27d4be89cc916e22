import SabaOS.Klib.RingBuffer
import Mathlib.Data.List.Infix

namespace SabaOS.Klib

structure BoundedQueue (α : Type) where
  items : List α
  log : List α
deriving DecidableEq, Repr

inductive QueueOp (α : Type) where
  | read (count : Nat)
  | write (buffer : List α)
  | peek
  | truncate (count : Nat)
  | writeTruncate (buffer : List α)
deriving DecidableEq, Repr

inductive QueueReply (α : Type) where
  | elements (read : List α)
  | count (n : Nat)
deriving DecidableEq, Repr

namespace BoundedQueue

variable {α : Type}

def empty : BoundedQueue α := ⟨[],[]⟩

def append (q : BoundedQueue α) (buffer : List α) : BoundedQueue α :=
  ⟨q.items ++ buffer,q.log ++ buffer⟩

def step (size : Nat) (q : BoundedQueue α) : QueueOp α → BoundedQueue α × QueueReply α
  | .read count => ({ q with items := q.items.drop count },.elements (q.items.take count))
  | .write buffer =>
    let n := min buffer.length (size - q.items.length)
    (q.append (buffer.take n),.count n)
  | .peek => (q,.elements (q.items.take 1))
  | .truncate count => ({ q with items := q.items.drop count },.count (min count q.items.length))
  | .writeTruncate buffer =>
    if buffer.length ≤ size - q.items.length then (q.append buffer,.count buffer.length)
    else (({ q with items := q.items.drop buffer.length }.append buffer),.count buffer.length)

def run (size : Nat) (q : BoundedQueue α) : List (QueueOp α) → BoundedQueue α × List (QueueReply α)
  | [] => (q,[])
  | op :: ops =>
    let r := q.step size op
    let s := run size r.1 ops
    (s.1,r.2 :: s.2)

structure Tidy (q : BoundedQueue α) (size : Nat) : Prop where
  le : q.items.length ≤ size
  suffix : q.items <:+ q.log

variable {q : BoundedQueue α} {size : Nat}

theorem Tidy.drop (h : q.Tidy size) (n : Nat) : Tidy { q with items := q.items.drop n } size :=
  ⟨(q.items.length_drop ▸ Nat.sub_le _ _).trans h.le,(List.drop_suffix n q.items).trans h.suffix⟩

theorem Tidy.append (h : q.Tidy size) {buffer : List α} (hle : q.items.length + buffer.length ≤ size) :
    (q.append buffer).Tidy size := by
  refine ⟨by simpa [BoundedQueue.append] using hle,?_⟩
  obtain ⟨pre,hpre⟩ := h.suffix
  exact ⟨pre,by simp [BoundedQueue.append,← hpre]⟩

theorem log_prefix_step (op : QueueOp α) : q.log <+: (q.step size op).1.log := by
  cases op with
  | read count => exact List.prefix_rfl
  | write buffer => exact List.prefix_append _ _
  | peek => exact List.prefix_rfl
  | truncate count => exact List.prefix_rfl
  | writeTruncate buffer =>
    rw [step]
    split_ifs
    · exact List.prefix_append _ _
    · exact List.prefix_append _ _

theorem log_prefix_run (ops : List (QueueOp α)) : q.log <+: (q.run size ops).1.log := by
  induction ops generalizing q with
  | nil => exact List.prefix_rfl
  | cons op ops ih => exact (log_prefix_step op).trans ih

end BoundedQueue

def QueueOp.Fits {α : Type} (size : Nat) : QueueOp α → Prop
  | .writeTruncate buffer => buffer.length ≤ size
  | _ => True

namespace RingBuffer

variable {α : Type} {size : Nat} {r : RingBuffer α size} {q : BoundedQueue α}

def step (r : RingBuffer α size) : QueueOp α → RingBuffer α size × QueueReply α
  | .read count => ((r.read count).1,.elements (r.read count).2)
  | .write buffer => ((r.write buffer).1,.count (r.write buffer).2)
  | .peek => (r,.elements r.peek)
  | .truncate count => (r.truncate count,.count (r.truncated count))
  | .writeTruncate buffer => ((r.writeTruncate buffer).1,.count (r.writeTruncate buffer).2)

def run (r : RingBuffer α size) : List (QueueOp α) → RingBuffer α size × List (QueueReply α)
  | [] => (r,[])
  | op :: ops =>
    let s := r.step op
    let t := s.1.run ops
    (t.1,s.2 :: t.2)

theorem Valid.peek_eq (hr : r.Valid) : r.peek = r.contents.take 1 := by
  rw [peek]
  split_ifs with hempty
  · rw [hr.isEmpty_iff.mp hempty]
    rfl
  · have hne := mt hr.isEmpty_iff.mpr hempty
    have hpos : 0 < r.writeIndex - r.readIndex := by
      rw [← contents_length]
      exact List.length_pos_iff.mpr hne
    rw [contents,← List.map_take,List.take_range,Nat.min_eq_left hpos]
    rfl

structure Stands (r : RingBuffer α size) (q : BoundedQueue α) : Prop where
  valid : r.Valid
  contents : r.contents = q.items
  index : r.writeIndex = q.log.length
  tidy : q.Tidy size

theorem Stands.write (h : Stands r q) (buffer : List α)
    (hlt : (q.step size (.write buffer)).1.log.length < 2 ^ 64) :
    Stands (r.write buffer).1 (q.step size (.write buffer)).1 ∧
      (r.write buffer).2 = min buffer.length (size - q.items.length) := by
  have hn : (r.write buffer).2 = min buffer.length (size - q.items.length) := by
    rw [← h.contents,contents_length,← h.valid.freeCount_eq]
    rfl
  have hle := h.tidy.le
  have hlen : (buffer.take (min buffer.length (size - q.items.length))).length =
      min buffer.length (size - q.items.length) := by simp
  simp only [BoundedQueue.step,BoundedQueue.append,List.length_append,hlen] at hlt ⊢
  obtain ⟨-,hcontents,hvalid,hindex⟩ := h.valid.write_spec buffer (by rw [hn,h.index]; exact hlt)
  refine ⟨⟨hvalid,?_,?_,h.tidy.append ?_⟩,hn⟩
  · rw [hcontents,h.contents,hn]
  · rw [hindex,hn,h.index,List.length_append,hlen]
  · rw [hlen]
    omega

theorem Stands.drop (h : Stands r q) (count : Nat) :
    Stands (r.truncate count) { q with items := q.items.drop count } ∧
      r.truncated count = min count q.items.length := by
  obtain ⟨hcontents,hvalid,hindex⟩ := h.valid.truncate_spec count
  refine ⟨⟨hvalid,?_,hindex.trans h.index,h.tidy.drop count⟩,?_⟩
  · rw [hcontents,h.contents]
  · rw [h.valid.truncated_eq,h.contents]

theorem Stands.writeTruncate (h : Stands r q) {buffer : List α} (hfit : buffer.length ≤ size)
    (hlt : (q.step size (.writeTruncate buffer)).1.log.length < 2 ^ 64) :
    Stands (r.writeTruncate buffer).1 (q.step size (.writeTruncate buffer)).1 ∧
      (r.writeTruncate buffer).2 = buffer.length := by
  have hfree : r.freeCount = size - q.items.length := by
    rw [h.valid.freeCount_eq,← contents_length,h.contents]
  rw [RingBuffer.writeTruncate,hfree]
  simp only [BoundedQueue.step] at hlt ⊢
  by_cases hroom : buffer.length ≤ size - q.items.length
  · have hall : min buffer.length (size - q.items.length) = buffer.length := Nat.min_eq_left hroom
    rw [if_pos hroom] at hlt
    rw [if_neg (Nat.not_lt.mpr hroom),if_pos hroom]
    have hwrite := h.write buffer (by simpa only [BoundedQueue.step,hall,List.take_length] using hlt)
    simpa only [BoundedQueue.step,hall,List.take_length] using hwrite
  · have hdropped := (h.drop buffer.length).1
    have hlen : (q.items.drop buffer.length).length = q.items.length - buffer.length := List.length_drop
    have hall : min buffer.length (size - (q.items.drop buffer.length).length) = buffer.length := by
      rw [hlen]
      have hle := h.tidy.le
      exact Nat.min_eq_left (by omega)
    rw [if_neg hroom] at hlt
    rw [if_pos (Nat.lt_of_not_le hroom),if_neg hroom]
    have hwrite := hdropped.write buffer
      (by simpa only [BoundedQueue.step,hall,List.take_length] using hlt)
    simpa only [BoundedQueue.step,hall,List.take_length] using hwrite

theorem Stands.step (h : Stands r q) {op : QueueOp α} (hfit : op.Fits size)
    (hlt : (q.step size op).1.log.length < 2 ^ 64) :
    Stands (r.step op).1 (q.step size op).1 ∧ (r.step op).2 = (q.step size op).2 := by
  cases op with
  | read count =>
    obtain ⟨hout,hcontents,hvalid,hindex⟩ := h.valid.read_spec count
    refine ⟨⟨hvalid,?_,hindex.trans h.index,h.tidy.drop count⟩,?_⟩
    · rw [RingBuffer.step,hcontents,h.contents]
      rfl
    · rw [RingBuffer.step,hout,h.contents]
      rfl
  | write buffer =>
    obtain ⟨hs,hn⟩ := h.write buffer hlt
    exact ⟨hs,congrArg QueueReply.count hn⟩
  | peek =>
    refine ⟨h,?_⟩
    rw [RingBuffer.step,h.valid.peek_eq,h.contents]
    rfl
  | truncate count =>
    obtain ⟨hs,hn⟩ := h.drop count
    exact ⟨hs,congrArg QueueReply.count hn⟩
  | writeTruncate buffer =>
    obtain ⟨hs,hn⟩ := h.writeTruncate hfit hlt
    refine ⟨hs,(congrArg QueueReply.count hn).trans ?_⟩
    simp only [BoundedQueue.step]
    split_ifs
    · rfl
    · rfl

theorem Stands.run (h : Stands r q) {ops : List (QueueOp α)} (hfit : ∀ op ∈ ops, op.Fits size)
    (hlt : (q.run size ops).1.log.length < 2 ^ 64) :
    Stands (r.run ops).1 (q.run size ops).1 ∧ (r.run ops).2 = (q.run size ops).2 := by
  induction ops generalizing r q with
  | nil => exact ⟨h,rfl⟩
  | cons op ops ih =>
    have hstep : (q.step size op).1.log.length < 2 ^ 64 :=
      (BoundedQueue.log_prefix_run ops).length_le.trans_lt hlt
    obtain ⟨hs,hreply⟩ := h.step (hfit op List.mem_cons_self) hstep
    obtain ⟨hrun,hreplies⟩ := ih hs (fun op hm => hfit op (List.mem_cons_of_mem _ hm)) hlt
    exact ⟨hrun,congrArg₂ List.cons hreply hreplies⟩

def new (data : Nat → α) : RingBuffer α size := ⟨0,0,data⟩

theorem new_stands (data : Nat → α) (hpos : 1 ≤ size) (hlt : size < 2 ^ 64) :
    Stands (new data : RingBuffer α size) .empty where
  valid := ⟨hpos,hlt,le_rfl,by simp [new],Nat.zero_le _⟩
  contents := rfl
  index := rfl
  tidy := ⟨Nat.zero_le _,List.suffix_rfl⟩

theorem ring_buffer_is_queue (data : Nat → α) (hpos : 1 ≤ size) (hlt : size < 2 ^ 64)
    (ops : List (QueueOp α)) (hfit : ∀ op ∈ ops, op.Fits size)
    (htotal : (BoundedQueue.empty.run size ops).1.log.length < 2 ^ 64) :
    ((new data : RingBuffer α size).run ops).2 = (BoundedQueue.empty.run size ops).2 ∧
      ((new data : RingBuffer α size).run ops).1.contents = (BoundedQueue.empty.run size ops).1.items ∧
      ((new data : RingBuffer α size).run ops).1.dataCount =
        (BoundedQueue.empty.run size ops).1.items.length ∧
      (BoundedQueue.empty.run size ops).1.items <:+ (BoundedQueue.empty.run size ops).1.log ∧
      (BoundedQueue.empty.run size ops).1.items.length ≤ size := by
  obtain ⟨hs,hreplies⟩ := (new_stands data hpos hlt).run hfit htotal
  refine ⟨hreplies,hs.contents,?_,hs.tidy.suffix,hs.tidy.le⟩
  rw [hs.valid.dataCount_eq,← contents_length,hs.contents]

def wrapped : List (QueueOp Nat) :=
  [.write [1,2],.read 1,.write [3,4,5],.peek,.writeTruncate [6,7],.truncate 1,.read 5]

theorem ring_buffer_is_queue_wrapped :
    ((new (fun _ => 0) : RingBuffer Nat 3).run wrapped).2 =
      [.count 2,.elements [1],.count 2,.elements [2],.count 2,.count 1,.elements [6,7]] :=
  (ring_buffer_is_queue (fun _ => 0) (by decide) (by decide) wrapped
    (by simp [wrapped,QueueOp.Fits]) (by decide)).1.trans (by decide)

end RingBuffer

end SabaOS.Klib
