import Kernix.Memory.BlockList
import Kernix.Proofs.Headers

namespace Kernix.Proofs
open Library Memory Memory.HeapBlock

/-- The address a `next` pointer leading to `bs` holds; `n` when there is no block. -/
def firstAddr : List Block → U32 → U32
  | [], n => n
  | b :: _, _ => b.addr

/-- The address a `prev` pointer after `bs` holds; `p` when there is no block. -/
def lastAddr : U32 → List Block → U32
  | p, [] => p
  | _, b :: bs => lastAddr b.addr bs

@[simp] theorem firstAddr_nil (n : U32) : firstAddr [] n = n := rfl
@[simp] theorem firstAddr_cons (b : Block) (bs : List Block) (n : U32) :
    firstAddr (b :: bs) n = b.addr := rfl
@[simp] theorem lastAddr_nil (p : U32) : lastAddr p [] = p := rfl
@[simp] theorem lastAddr_cons (b : Block) (bs : List Block) (p : U32) :
    lastAddr p (b :: bs) = lastAddr b.addr bs := rfl

def flag (free : Bool) : U32 := if free then 1 else 0

@[simp] theorem flag_true : flag true = 1 := rfl
@[simp] theorem flag_false : flag false = 0 := rfl

theorem flag_ne_zero {free : Bool} : flag free ≠ 0 ↔ free = true := by
  cases free <;> simp

@[simp] theorem flag_eq_zero {free : Bool} : flag free = 0#32 ↔ free = false := by
  cases free <;> simp

def header (b : Block) (prev next : U32) : HeapBlock :=
  ⟨blockMagic, b.size, flag b.free, prev, next⟩

/-- `bs` is spelled in memory as a doubly linked list, entered from `prev` and left to `next`. -/
def Linked (m : Mem) : U32 → List Block → U32 → Prop
  | _, [], _ => True
  | prev, b :: bs, next =>
    load m b.addr = header b prev (firstAddr bs next) ∧ Linked m b.addr bs next

@[simp] theorem firstAddr_append (xs ys : List Block) (n : U32) :
    firstAddr (xs ++ ys) n = firstAddr xs (firstAddr ys n) := by
  cases xs <;> rfl

@[simp] theorem lastAddr_append (xs ys : List Block) (p : U32) :
    lastAddr p (xs ++ ys) = lastAddr (lastAddr p xs) ys := by
  induction xs generalizing p with
  | nil => rfl
  | cons x xs ih => exact ih x.addr

theorem linked_append {m : Mem} {p n : U32} {xs ys : List Block} :
    Linked m p (xs ++ ys) n ↔
      Linked m p xs (firstAddr ys n) ∧ Linked m (lastAddr p xs) ys n := by
  induction xs generalizing p with
  | nil => simp [Linked, lastAddr]
  | cons x xs ih => simp [Linked, lastAddr, ih, and_assoc]

/-- A block in the middle: the list before it, its own header, the list after it. -/
theorem linked_zipper {m : Mem} {p n : U32} {pre post : List Block} {b : Block} :
    Linked m p (pre ++ b :: post) n ↔ Linked m p pre b.addr ∧
      load m b.addr = header b (lastAddr p pre) (firstAddr post n) ∧ Linked m b.addr post n := by
  rw [linked_append]
  rfl

/-- A linked list depends on its own headers only. -/
theorem Linked.congr {m m' : Mem} {p n : U32} {bs : List Block} (h : Linked m p bs n)
    (he : ∀ b ∈ bs, load m' b.addr = load m b.addr) : Linked m' p bs n := by
  induction bs generalizing p with
  | nil => trivial
  | cons b bs ih =>
    obtain ⟨hb, hbs⟩ := h
    exact ⟨(he b (by simp)).trans hb, ih hbs fun c hc => he c (by simp [hc])⟩

/-- Redirecting the first block's `prev` enters the list from elsewhere. -/
theorem Linked.enter {m m' : Mem} {p p' n : U32} {c : Block} {cs : List Block}
    (h : Linked m p (c :: cs) n) (hc : load m' c.addr = { load m c.addr with prev := p' })
    (he : ∀ d ∈ cs, load m' d.addr = load m d.addr) : Linked m' p' (c :: cs) n := by
  obtain ⟨hb, hbs⟩ := h
  refine ⟨?_, hbs.congr he⟩
  rw [hc, hb]
  rfl

/-- After `linkBack` the list is entered from `a`. -/
theorem Linked.relink {m : Mem} {p : U32} {bs : List Block} (h : Linked m p bs nullptr)
    (hne : ∀ c ∈ bs, c.addr ≠ nullptr)
    (hap : bs.Pairwise fun c d => Apart 20 c.addr d.addr) (a : U32) :
    Linked (linkBack m (firstAddr bs nullptr) a) a bs nullptr := by
  cases bs with
  | nil => trivial
  | cons c cs =>
    have hc : c.addr ≠ nullptr := hne c (by simp)
    rw [firstAddr, linkBack, if_pos hc]
    apply h.enter (load_setPrev_self m c.addr a)
    intro d hd
    exact load_setPrev_apart ((List.pairwise_cons.mp hap).1 d hd) a

theorem load_linkBack {m : Mem} {bs : List Block} {a c : U32}
    (h : ∀ d ∈ bs, Apart 20 d.addr c) :
    load (linkBack m (firstAddr bs nullptr) a) c = load m c := by
  unfold linkBack
  split
  · cases bs with
    | nil => simp [firstAddr] at *
    | cons d ds => exact load_setPrev_apart (h d (by simp)) a
  · rfl

theorem linkBack_outside {m : Mem} {bs : List Block} {a x : U32}
    (h : ∀ d ∈ bs, ¬ InHeader d.addr x) :
    linkBack m (firstAddr bs nullptr) a x = m x := by
  unfold linkBack
  split
  · cases bs with
    | nil => simp [firstAddr] at *
    | cons d ds => exact setPrev_outside (h d (by simp)) a
  · rfl

/-- Blocks laid inside the heap's part of the address space, not at null. -/
structure Placed (lo : Nat) (bs : List Block) : Prop where
  low : 0 < lo
  laid : Laid lo bs
  high : lo + room bs ≤ 2 ^ 26

theorem Placed.addr_pos {lo : Nat} {bs : List Block} {b : Block} (h : Placed lo bs) (hb : b ∈ bs) :
    0 < b.addr.toNat := by
  have := (h.laid.bounds hb).1
  have := h.low
  simp only [Block.start] at *
  omega

theorem Placed.addr_ne {lo : Nat} {bs : List Block} {b : Block} (h : Placed lo bs) (hb : b ∈ bs) :
    b.addr ≠ nullptr := by
  have := h.addr_pos hb
  rintro he
  simp [he, nullptr] at this

/-- Where the blocks around `b` lie, in numbers. -/
theorem Placed.around {lo : Nat} {pre post : List Block} {b : Block}
    (h : Placed lo (pre ++ b :: post)) :
    0 < b.addr.toNat ∧ b.addr.toNat + 24 + b.size.toNat ≤ 2 ^ 26 ∧
    (∀ c ∈ pre, c.addr.toNat + 24 + c.size.toNat ≤ b.addr.toNat) ∧
    (∀ c ∈ post, b.addr.toNat + 24 + b.size.toNat ≤ c.addr.toNat ∧
      c.addr.toNat + 24 + c.size.toNat ≤ 2 ^ 26) := by
  obtain ⟨hb, hpre, hpost⟩ := h.laid.around
  have hlow := h.low
  have hhigh := h.high
  simp only [room, span_append, span_cons, Block.start, Block.len] at *
  refine ⟨by omega, by omega, ?_, ?_⟩
  · intro c hc
    have := hpre c hc
    omega
  · intro c hc
    have := hpost c hc
    omega

/-- Headers a block apart do not meet. -/
theorem apart_of_lt {a b : U32} (h : a.toNat + 24 ≤ b.toNat) (hb : b.toNat ≤ 2 ^ 26) :
    Apart 20 a b :=
  apart_of_le (by omega) (by omega)

theorem Placed.apart {lo : Nat} {bs : List Block} (h : Placed lo bs) :
    bs.Pairwise fun c d => Apart 20 c.addr d.addr := by
  refine h.laid.pairwise.imp_of_mem fun {c d} _ hd hcd => ?_
  have := (h.laid.bounds hd).2
  have := h.high
  simp only [Block.start, Block.len, room] at *
  exact apart_of_lt (by omega) (by omega)

end Kernix.Proofs
