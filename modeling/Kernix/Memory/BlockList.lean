import Kernix.Library.Memory
import Kernix.Library.Tiling

namespace Kernix.Memory
open Library

/-- A block as the heap's list holds it. -/
structure Block where
  addr : U32
  size : U32
  free : Bool
deriving DecidableEq

namespace Block

def start (b : Block) : Nat := b.addr.toNat

/-- Header and payload. -/
def len (b : Block) : Nat := 24 + b.size.toNat

def payload (b : Block) : U32 := b.addr + 24

end Block

/-- Blocks laid end to end from `lo`. -/
abbrev Laid (lo : Nat) (bs : List Block) : Prop := Tiles Block.start Block.len lo bs

abbrev room (bs : List Block) : Nat := span Block.len bs

/-- What the allocator does, said of the list of blocks alone. -/
def fits (r : U32) (b : Block) : Bool := b.free && decide (r ≤ b.size)

/-- A block is cut to `r` bytes when what remains holds a header and eight bytes. -/
def cut (r : U32) (b : Block) : List Block :=
  if b.size.toNat < r.toNat + 32 then [b]
  else [{ b with size := r }, ⟨b.addr + 24 + r, b.size - r - 24, true⟩]

/-- The block handed out, and what is left of it. -/
def carve (r : U32) (b : Block) : List Block := cut r { b with free := false }

/-- First fit. -/
def allocate (r : U32) : List Block → Option (U32 × List Block)
  | [] => none
  | b :: bs =>
    if fits r b then some (b.payload, carve r b ++ bs)
    else (allocate r bs).map (fun (q, bs') => (q, b :: bs'))

/-- New pages go to a free last block, or make a block of their own. -/
def enlarge (added : U32) : List Block → List Block
  | [] => []
  | [t] =>
    if t.free then [{ t with size := t.size + added }]
    else [t, ⟨t.addr + 24 + t.size, added - 24, true⟩]
  | b :: c :: bs => b :: enlarge added (c :: bs)

/-- A block takes in the one after it, if that is free. -/
def mergeNext (b : Block) : List Block → List Block
  | [] => [b]
  | n :: bs => if n.free then { b with size := b.size + (24 + n.size) } :: bs else b :: n :: bs

/-- The last block of `pre`, if free, takes in the one after it. -/
def mergeLast : List Block → List Block → List Block
  | [], bs => bs
  | [p], bs => if p.free then mergeNext p bs else p :: bs
  | p :: q :: pre, bs => p :: mergeLast (q :: pre) bs

/-- Freeing `b`: forward merge first, then backward. -/
def release (pre : List Block) (b : Block) (post : List Block) : List Block :=
  mergeLast pre (mergeNext { b with free := true } post)

/-- Every run of free blocks made one. -/
def coalesce : List Block → List Block
  | [] => []
  | b :: bs => if b.free then mergeNext b (coalesce bs) else b :: coalesce bs

/-- The heap as its list of blocks and the end of its mapped pages. -/
structure Heap where
  blocks : List Block
  mappedEnd : Nat

/-- `pages_needed` when `t` is the last block, with its 32-bit sums. -/
def pagesFor (r : U32) (t : Block) : Nat :=
  let needed := if t.free then r - t.size else r + 24
  (needed.toNat + 4095) % 2 ^ 32 / 4096

/-- The growth a request of `r` bytes asks for. -/
def tailPages (r : U32) (bs : List Block) : Nat :=
  match bs.getLast? with
  | some t => pagesFor r t
  | none => 0

/-- `kmalloc` of `r` bytes, already rounded: first fit, then growth and first fit again.
A growth that meets the limit leaves every page up to it mapped. -/
def malloc (r : U32) (h : Heap) : U32 × Heap :=
  match allocate r h.blocks with
  | some (q, bs) => (q, { h with blocks := bs })
  | none =>
    let pages := tailPages r h.blocks
    if h.mappedEnd + 4096 * pages ≤ 2 ^ 26 then
      let grown := enlarge (BitVec.ofNat 32 (4096 * pages)) h.blocks
      match allocate r grown with
      | some (q, bs) => (q, ⟨bs, h.mappedEnd + 4096 * pages⟩)
      | none => (0, ⟨grown, h.mappedEnd + 4096 * pages⟩)
    else (0, { h with mappedEnd := 2 ^ 26 })

/-- The used block with payload `p`, and the blocks around it. -/
def findUsed (p : U32) : List Block → Option (List Block × Block × List Block)
  | [] => none
  | b :: bs =>
    if b.payload = p ∧ b.free = false then some ([], b, bs)
    else (findUsed p bs).map (fun (pre, c, post) => (b :: pre, c, post))

/-- `kfree` of `p`. -/
def freeAt (p : U32) (bs : List Block) : List Block :=
  match findUsed p bs with
  | some (pre, b, post) => release pre b post
  | none => bs

/-- `b` made to hold `r` bytes where it lies, alone or with the free block after it. -/
def resize (r : U32) (b : Block) (post : List Block) : Option (List Block) :=
  if r ≤ b.size then some (cut r b ++ post)
  else
    match mergeNext b post with
    | c :: rest => if r ≤ c.size then some (cut r c ++ rest) else none
    | [] => none

/-- `krealloc` of `p` to `r` bytes, already rounded. -/
def realloc (p r : U32) (h : Heap) : U32 × Heap :=
  match findUsed p h.blocks with
  | none => (0, h)
  | some (pre, b, post) =>
    match resize r b post with
    | some bs => (p, { h with blocks := pre ++ bs })
    | none =>
      let (q, h) := malloc r h
      if q = 0 then (0, h) else (q, { h with blocks := freeAt p h.blocks })

/-- The blocks that have been handed out. -/
def used (bs : List Block) : List Block := bs.filter fun b => !b.free

/-- No two neighbouring blocks are both free. -/
def Merged (bs : List Block) : Prop := bs.IsChain fun b c => ¬ (b.free = true ∧ c.free = true)

instance (bs : List Block) : Decidable (Merged bs) :=
  inferInstanceAs (Decidable (bs.IsChain _))

def FirstUsed (bs : List Block) : Prop := ∀ b ∈ bs.head?, b.free = false

def LastUsed (bs : List Block) : Prop := ∀ b ∈ bs.getLast?, b.free = false

instance (bs : List Block) : Decidable (FirstUsed bs) :=
  match bs with
  | [] => .isTrue (by simp [FirstUsed])
  | b :: _ => decidable_of_iff (b.free = false) (by simp [FirstUsed])

theorem fits_eq_false {r : U32} {b : Block} :
    fits r b = false ↔ b.free = false ∨ b.size.toNat < r.toNat := by
  simp only [fits, Bool.and_eq_false_iff, decide_eq_false_iff_not, BitVec.le_def, Nat.not_le]

theorem allocate_eq_some {r q : U32} {bs bs' : List Block} :
    allocate r bs = some (q, bs') ↔
      ∃ pre b post, bs = pre ++ b :: post ∧ (∀ c ∈ pre, fits r c = false) ∧ fits r b = true ∧
        q = b.payload ∧ bs' = pre ++ carve r b ++ post := by
  induction bs generalizing bs' with
  | nil => simp [allocate]
  | cons b bs ih =>
    rw [allocate]
    constructor
    · intro h
      split at h
      · rename_i hb
        simp only [Option.some.injEq, Prod.mk.injEq] at h
        exact ⟨[], b, bs, rfl, by simp, hb, h.1.symm, h.2.symm⟩
      · rename_i hb
        obtain ⟨⟨q', ds⟩, hd, he⟩ := Option.map_eq_some_iff.mp h
        simp only [Prod.mk.injEq] at he
        obtain ⟨rfl, rfl⟩ := he
        obtain ⟨pre, c, post, rfl, hpre, hc, hq, rfl⟩ := ih.mp hd
        refine ⟨b :: pre, c, post, rfl, ?_, hc, hq, rfl⟩
        simpa [hb] using hpre
    · rintro ⟨pre, c, post, he, hpre, hc, rfl, rfl⟩
      cases pre with
      | nil =>
        simp only [List.nil_append, List.cons.injEq] at he
        obtain ⟨rfl, rfl⟩ := he
        simp [hc]
      | cons p pre =>
        simp only [List.cons_append, List.cons.injEq] at he
        obtain ⟨rfl, rfl⟩ := he
        rw [if_neg (by simpa using hpre b (by simp))]
        have := ih.mpr ⟨pre, c, post, rfl, fun d hd => hpre d (by simp [hd]), hc, rfl, rfl⟩
        simp [this]

theorem allocate_eq_none {r : U32} {bs : List Block} :
    allocate r bs = none ↔ ∀ b ∈ bs, fits r b = false := by
  induction bs with
  | nil => simp [allocate]
  | cons b bs ih =>
    rw [allocate]
    split
    · rename_i hb
      simp [hb]
    · rename_i hb
      simp [ih, hb]

theorem enlarge_append (added : U32) (pre : List Block) (t : Block) :
    enlarge added (pre ++ [t]) = pre ++ enlarge added [t] := by
  induction pre with
  | nil => rfl
  | cons b pre ih =>
    cases pre with
    | nil => rfl
    | cons c pre => simpa [enlarge] using ih

theorem mergeLast_append (pre : List Block) (p : Block) (bs : List Block) :
    mergeLast (pre ++ [p]) bs = pre ++ mergeLast [p] bs := by
  induction pre with
  | nil => rfl
  | cons b pre ih =>
    cases pre with
    | nil => rfl
    | cons c pre => simpa [mergeLast] using ih

theorem findUsed_append {pre post : List Block} {b : Block} (hb : b.free = false)
    (hpre : ∀ c ∈ pre, c.payload ≠ b.payload) :
    findUsed b.payload (pre ++ b :: post) = some (pre, b, post) := by
  induction pre with
  | nil => simp [findUsed, hb]
  | cons c pre ih =>
    have hc : ¬ (c.payload = b.payload ∧ c.free = false) := fun h => hpre c (by simp) h.1
    rw [List.cons_append, findUsed, if_neg hc, ih fun d hd => hpre d (by simp [hd])]
    rfl

/-! What each operation does to the used blocks. -/

@[simp] theorem used_append (xs ys : List Block) : used (xs ++ ys) = used xs ++ used ys :=
  List.filter_append ..

theorem used_cons_free {b : Block} (bs : List Block) (hb : b.free = true) :
    used (b :: bs) = used bs := by
  simp [used, hb]

theorem used_cons_used {b : Block} (bs : List Block) (hb : b.free = false) :
    used (b :: bs) = b :: used bs := by
  simp [used, hb]

theorem mem_used {bs : List Block} {b : Block} : b ∈ used bs ↔ b ∈ bs ∧ b.free = false := by
  simp [used]

/-- A used block stays where it is when cut, and holds what was asked for. -/
theorem used_cut {r : U32} {b : Block} (hb : b.free = false) (hr : r ≤ b.size) :
    ∃ c : Block, used (cut r b) = [c] ∧ c.addr = b.addr ∧ c.free = false ∧ r ≤ c.size ∧
      c.size ≤ b.size := by
  unfold cut
  split
  · exact ⟨b, by simp [used, hb], rfl, hb, hr, BitVec.le_refl _⟩
  · exact ⟨{ b with size := r }, by simp [used, hb], rfl, hb, BitVec.le_refl _, hr⟩

theorem used_mergeNext (b : Block) (post : List Block) :
    ∃ c rest, mergeNext b post = c :: rest ∧ c.addr = b.addr ∧ c.free = b.free ∧
      used rest = used post := by
  cases post with
  | nil => exact ⟨b, [], rfl, rfl, rfl, rfl⟩
  | cons n post =>
    cases hn : n.free with
    | true =>
      refine ⟨{ b with size := b.size + (24 + n.size) }, post, by simp [mergeNext, hn], rfl, rfl, ?_⟩
      rw [used_cons_free post hn]
    | false => exact ⟨b, n :: post, by simp [mergeNext, hn], rfl, rfl, rfl⟩

theorem used_mergeLast (pre bs : List Block) :
    used (mergeLast pre bs) = used pre ++ used bs := by
  induction pre with
  | nil => rfl
  | cons p pre ih =>
    cases pre with
    | nil =>
      rw [mergeLast]
      split
      · rename_i hp
        obtain ⟨c, rest, hm, -, hfree, hrest⟩ := used_mergeNext p bs
        rw [hm, used_cons_free rest (hfree.trans hp), used_cons_free [] hp, hrest]
        rfl
      · rename_i hp
        have hp : p.free = false := by simpa using hp
        rw [used_cons_used bs hp, used_cons_used [] hp]
        rfl
    | cons q pre =>
      rw [mergeLast, ← List.singleton_append, used_append, ih, ← List.append_assoc, ← used_append,
        List.singleton_append]

theorem used_release (pre : List Block) (b : Block) (post : List Block) :
    used (release pre b post) = used pre ++ used post := by
  obtain ⟨c, rest, hm, -, hfree, hrest⟩ := used_mergeNext { b with free := true } post
  rw [release, used_mergeLast, hm, used_cons_free rest hfree, hrest]

theorem used_enlarge (added : U32) (bs : List Block) : used (enlarge added bs) = used bs := by
  induction bs with
  | nil => rfl
  | cons b bs ih =>
    cases bs with
    | nil =>
      cases hb : b.free <;> simp [enlarge, hb, used]
    | cons c bs =>
      rw [enlarge, ← List.singleton_append, used_append, ih, ← used_append, List.singleton_append]

/-- First fit adds one used block, of the size asked for at least. -/
theorem used_allocate {r q : U32} {bs bs' : List Block} (ha : allocate r bs = some (q, bs')) :
    ∃ xs c ys, used bs = xs ++ ys ∧ used bs' = xs ++ c :: ys ∧ c.payload = q ∧
      c.free = false ∧ r ≤ c.size := by
  obtain ⟨pre, b, post, rfl, -, hb, rfl, rfl⟩ := allocate_eq_some.mp ha
  have hb : b.free = true ∧ r ≤ b.size := by simpa [fits] using hb
  obtain ⟨c, hc, haddr, hcf, hrc, -⟩ := used_cut (b := { b with free := false }) rfl hb.2
  refine ⟨used pre, c, used post, ?_, ?_, congrArg (· + 24) haddr, hcf, hrc⟩
  · rw [used_append, used_cons_free post hb.1]
  · rw [used_append, used_append, carve, hc, List.append_assoc, List.singleton_append]

@[simp] theorem tailPages_append (r : U32) (pre : List Block) (t : Block) :
    tailPages r (pre ++ [t]) = pagesFor r t := by
  rw [tailPages, List.getLast?_concat]

/-! The branches of `malloc`. -/

section
variable {h : Heap} {r q : U32} {bs : List Block} {pages : Nat}

theorem malloc_fits (ha : allocate r h.blocks = some (q, bs)) :
    malloc r h = (q, { h with blocks := bs }) := by
  rw [malloc, ha]

variable (ha : allocate r h.blocks = none) (hpages : tailPages r h.blocks = pages)
include ha hpages

theorem malloc_limit (hfull : ¬ h.mappedEnd + 4096 * pages ≤ 2 ^ 26) :
    malloc r h = (0, { h with mappedEnd := 2 ^ 26 }) := by
  simp only [malloc, ha, hpages, if_neg hfull]

theorem malloc_extended (hroom : h.mappedEnd + 4096 * pages ≤ 2 ^ 26)
    (hgrown : allocate r (enlarge (BitVec.ofNat 32 (4096 * pages)) h.blocks) = some (q, bs)) :
    malloc r h = (q, ⟨bs, h.mappedEnd + 4096 * pages⟩) := by
  simp only [malloc, ha, hpages, if_pos hroom, hgrown]

theorem malloc_short (hroom : h.mappedEnd + 4096 * pages ≤ 2 ^ 26)
    (hgrown : allocate r (enlarge (BitVec.ofNat 32 (4096 * pages)) h.blocks) = none) :
    malloc r h = (0, ⟨enlarge (BitVec.ofNat 32 (4096 * pages)) h.blocks,
      h.mappedEnd + 4096 * pages⟩) := by
  simp only [malloc, ha, hpages, if_pos hroom, hgrown]

end

/-- `malloc` fails and no used block changes, or one is added. -/
theorem used_malloc (r : U32) (h : Heap) :
    ((malloc r h).1 = 0 ∧ used (malloc r h).2.blocks = used h.blocks) ∨
      ∃ xs c ys, used h.blocks = xs ++ ys ∧ used (malloc r h).2.blocks = xs ++ c :: ys ∧
        c.payload = (malloc r h).1 ∧ c.free = false ∧ r ≤ c.size := by
  unfold malloc
  split
  · rename_i q bs ha
    exact .inr (used_allocate ha)
  · dsimp only
    split
    · split
      · rename_i q bs ha
        have := used_allocate ha
        rw [used_enlarge] at this
        exact .inr this
      · exact .inl ⟨rfl, used_enlarge _ _⟩
    · exact .inl ⟨rfl, rfl⟩

end Kernix.Memory
