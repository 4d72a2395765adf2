import Kernix.Proofs.Kfree

namespace Kernix.Proofs
open Library Memory Memory.HeapBlock

/-- The bytes a client was handed. -/
def InPayload (b : Block) (x : U32) : Prop := (x - b.payload).toNat < b.size.toNat

variable {s : State} {lo : Nat} {bs ds pre post : List Block} {b c d : Block} {m : Mem} {x : U32}

/-- Where a byte of a payload lies, in numbers. -/
theorem Placed.payload_range (h : Placed lo bs) (hb : b ∈ bs) (hx : InPayload b x) :
    b.addr.toNat + 24 ≤ x.toNat ∧ x.toNat < b.addr.toNat + 24 + b.size.toNat ∧
      x.toNat = b.addr.toNat + 24 + (x - b.payload).toNat := by
  obtain ⟨pre, post, rfl⟩ := List.append_of_mem hb
  obtain ⟨-, hend, -⟩ := h.around
  unfold InPayload Block.payload at *
  bv_omega

/-- Of two blocks of the heap, one is the other or lies wholly before it. -/
theorem Placed.order (h : Placed lo bs) (hb : b ∈ bs) (hc : c ∈ bs) :
    b = c ∨ b.addr.toNat + 24 + b.size.toNat ≤ c.addr.toNat ∨
      c.addr.toNat + 24 + c.size.toNat ≤ b.addr.toNat := by
  obtain ⟨pre, post, rfl⟩ := List.append_of_mem hb
  obtain ⟨-, -, hpre, hpost⟩ := h.around
  rcases List.mem_append.mp hc with hc | hc
  · exact .inr (.inr (hpre c hc))
  · rcases List.mem_cons.mp hc with rfl | hc
    · exact .inl rfl
    · exact .inr (.inl (hpost c hc).1)

theorem Placed.eq_of_payload (h : Placed lo bs) (hb : b ∈ bs) (hc : c ∈ bs)
    (he : b.payload = c.payload) : b = c := by
  have haddr : b.addr = c.addr := by
    unfold Block.payload at he
    bv_omega
  rcases h.order hb hc with h | h | h
  · exact h
  · rw [haddr] at h
    omega
  · rw [haddr] at h
    omega

theorem Placed.payload_ne (h : Placed lo bs) (hb : b ∈ bs) : b.payload ≠ nullptr := by
  obtain ⟨pre, post, rfl⟩ := List.append_of_mem hb
  obtain ⟨-, hend, -⟩ := h.around
  unfold Block.payload nullptr
  bv_omega

/-- No header lies in a payload. -/
theorem Placed.payload_outside (h : Placed lo bs) (hb : b ∈ bs) (hx : InPayload b x) :
    ∀ c ∈ bs, ¬ InHeader c.addr x := by
  intro c hc
  obtain ⟨hlow, hhigh, -⟩ := h.payload_range hb hx
  have hcb := h.order hb hc
  have hcx := (h.laid.bounds hc).2
  have hroom := h.high
  simp only [Block.start, Block.len, room] at hcx hroom
  unfold InHeader
  rcases hcb with rfl | hcb | hcb <;> bv_omega

/-- Payloads of two blocks share no byte. -/
theorem Placed.payload_disjoint (h : Placed lo bs) (hb : b ∈ bs) (hc : c ∈ bs) (hne : b ≠ c)
    (hx : InPayload b x) : ¬ InPayload c x := by
  intro hxc
  have hbx := h.payload_range hb hx
  have hcx := h.payload_range hc hxc
  rcases h.order hb hc with he | hcb | hcb
  · exact hne he
  · omega
  · omega

/-- Only the bytes of the headers hold the list. -/
theorem Rep.congr (h : Rep s bs) (hm : ∀ x, (∃ b ∈ bs, InHeader b.addr x) → m x = s.mem x) :
    Rep { s with mem := m } bs := by
  refine h.edit h.ne h.placed rfl h.sized (h.linked.congr ?_)
  intro b hb
  exact load_congr fun x hx => hm x ⟨b, hb, hx⟩

/-- A store to a byte of a payload leaves the list alone. -/
theorem Rep.congr_payload (h : Rep s bs) (hb : b ∈ bs)
    (hm : ∀ x, ¬ InPayload b x → m x = s.mem x) : Rep { s with mem := m } bs := by
  refine h.congr fun x hx => hm x ?_
  intro hin
  obtain ⟨c, hc, hxc⟩ := hx
  exact h.placed.payload_outside hb hin c hc hxc

/-- A payload that is one before and after sees none of the edits between. -/
theorem SameOutside.payload {m m' : Mem} (h : SameOutside ds m m') (hp : Placed lo ds)
    (hb : b ∈ ds) (hx : InPayload b x) : m' x = m x :=
  h x (hp.payload_outside hb hx)

theorem used_sublist (bs : List Block) : (used bs).Sublist bs := List.filter_sublist

theorem mem_of_used (h : b ∈ used bs) : b ∈ bs := (mem_used.mp h).1

/-- A block put between used ones is none of them. -/
theorem Placed.fresh {xs ys : List Block} (h : Placed lo bs) (hu : used bs = xs ++ c :: ys) :
    ∀ d ∈ xs ++ ys, d.payload ≠ c.payload := by
  have hap := h.apart.sublist (used_sublist bs)
  rw [hu] at hap
  have hne : ∀ {a b : Block}, Apart 20 a.addr b.addr → a.payload ≠ b.payload := by
    intro a b hab he
    obtain ⟨hab, -⟩ := hab
    unfold Block.payload at he
    bv_omega
  obtain ⟨-, hcy, hxc⟩ := List.pairwise_append.mp hap
  intro d hd
  rcases List.mem_append.mp hd with hd | hd
  · exact hne (hxc d hd c List.mem_cons_self)
  · exact (hne ((List.pairwise_cons.mp hcy).1 d hd)).symm

theorem Placed.findUsed (h : Placed lo (pre ++ b :: post)) (hb : b.free = false) :
    findUsed b.payload (pre ++ b :: post) = some (pre, b, post) := by
  apply findUsed_append hb
  intro c hc he
  have := h.eq_of_payload (b := c) (c := b) (by simp [hc]) (by simp) he
  subst this
  obtain ⟨-, -, hpre, -⟩ := h.around
  have := hpre c hc
  omega

theorem Placed.freeAt (h : Placed lo (pre ++ b :: post)) (hb : b.free = false) :
    freeAt b.payload (pre ++ b :: post) = release pre b post := by
  rw [Memory.freeAt, h.findUsed hb]

/-- Freeing takes exactly one block away. -/
theorem Placed.mem_used_freeAt (h : Placed lo bs) (hb : b ∈ used bs) :
    d ∈ used (Memory.freeAt b.payload bs) ↔ d ∈ used bs ∧ d.payload ≠ b.payload := by
  obtain ⟨hb, hfree⟩ := mem_used.mp hb
  obtain ⟨pre, post, rfl⟩ := List.append_of_mem hb
  have hu : used (pre ++ b :: post) = used pre ++ b :: used post := by
    rw [used_append, used_cons_used post hfree]
  have hfresh := h.fresh hu
  rw [h.freeAt hfree, used_release, hu]
  constructor
  · intro hd
    refine ⟨?_, hfresh d hd⟩
    rcases List.mem_append.mp hd with hd | hd
    · exact List.mem_append_left _ hd
    · exact List.mem_append_right _ (List.mem_cons_of_mem _ hd)
  · rintro ⟨hd, hne⟩
    rcases List.mem_append.mp hd with hd | hd
    · exact List.mem_append_left _ hd
    · rcases List.mem_cons.mp hd with rfl | hd
      · exact absurd rfl hne
      · exact List.mem_append_right _ hd

/-- `c`, of `r` bytes at least, joins the used blocks. -/
structure Adds (r : U32) (bs : List Block) (c : Block) (bs' : List Block) : Prop where
  free : c.free = false
  enough : r ≤ c.size
  fresh : ∀ d ∈ used bs, d.payload ≠ c.payload
  mem : ∀ d, d ∈ used bs' ↔ d ∈ used bs ∨ d = c

/-- What `malloc` does to the used blocks of a heap. -/
theorem malloc_adds {r : U32} {h : Heap} (hp : Placed lo (malloc r h).2.blocks) :
    ((malloc r h).1 = nullptr ∧ ∀ d, d ∈ used (malloc r h).2.blocks ↔ d ∈ used h.blocks) ∨
      ∃ c, c.payload = (malloc r h).1 ∧ c.payload ≠ nullptr ∧
        Adds r h.blocks c (malloc r h).2.blocks := by
  rcases used_malloc r h with ⟨hq, hu⟩ | ⟨xs, c, ys, hold, hnew, hq, hfree, hr⟩
  · exact .inl ⟨hq, by simp [hu]⟩
  · refine .inr ⟨c, hq, ?_, hfree, hr, ?_, ?_⟩
    · exact hp.payload_ne (mem_of_used (by simp [hnew]))
    · intro d hd
      exact hp.fresh hnew d (hold ▸ hd)
    · intro d
      simp only [hold, hnew, List.mem_append, List.mem_cons]
      tauto

end Kernix.Proofs
