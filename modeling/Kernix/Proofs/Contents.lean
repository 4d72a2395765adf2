import Kernix.Library.Runs
import Kernix.Proofs.Served

namespace Kernix.Proofs
open Library Memory Memory.HeapBlock Memory.Client

variable {c c' : Client} {s s' : State} {h h' : Heap} {b d : Block} {p q : U32}

theorem Rep.ksize {bs : List Block} (hr : Rep s bs) (hb : b ∈ used bs) :
    ksize s b.payload = b.size := by
  obtain ⟨hmem, hfree⟩ := mem_used.mp hb
  have hblock := hr.blockFromPtr hmem
  have hne := hr.placed.addr_ne hmem
  obtain ⟨pre, post, rfl⟩ := List.append_of_mem hmem
  have hload := (linked_zipper.mp hr.linked).2.1
  have hguard : ¬ (b.addr = nullptr ∨ (load s.mem b.addr).free ≠ 0) := by
    rw [hload, header, hfree, flag_false]
    exact not_or.mpr ⟨hne, not_not.mpr rfl⟩
  simp only [Memory.ksize, hblock, if_neg hguard]
  rw [hload, header]

/-- The clients own the used blocks of the heap, and nothing else. -/
structure Backed (c : Client) (h : Heap) : Prop where
  holds : Holds c.state h
  live : ∀ p, p ∈ c.live ↔ ∃ b ∈ used h.blocks, b.payload = p

theorem Backed.contents_used (hc : Backed c h) (hb : b ∈ used h.blocks) :
    c.contents b.payload = some (c.state.mem.bytes b.payload b.size.toNat) := by
  rw [contents, if_pos ((hc.live _).mpr ⟨b, hb, rfl⟩), hc.holds.rep.ksize hb]

theorem Backed.contents_none (hc : Backed c h) (hp : ∀ b ∈ used h.blocks, b.payload ≠ p) :
    c.contents p = none := by
  rw [contents, if_neg]
  rintro hl
  obtain ⟨b, hb, he⟩ := (hc.live p).mp hl
  exact hp b hb he

theorem Backed.isSome (hc : Backed c h) (hb : b ∈ used h.blocks) :
    (c.contents b.payload).isSome := by
  simp [hc.contents_used hb]

/-- A pointer whose block and bytes are left alone stands for the same bytes. -/
theorem Backed.contents_eq (hc : Backed c h) (hc' : Backed c' h')
    (hp : ∀ b, b.payload = p → (b ∈ used h'.blocks ↔ b ∈ used h.blocks))
    (hm : ∀ b ∈ used h.blocks, b.payload = p → ∀ x, InPayload b x →
      c'.state.mem x = c.state.mem x) : c'.contents p = c.contents p := by
  by_cases hl : p ∈ c.live
  · obtain ⟨b, hb, rfl⟩ := (hc.live p).mp hl
    rw [hc.contents_used hb, hc'.contents_used ((hp b rfl).mpr hb)]
    exact congrArg some (Mem.bytes_congr (Nat.le_of_lt b.size.isLt) (hm b hb rfl))
  · have hno : ∀ b ∈ used h.blocks, b.payload ≠ p := fun b hb he => hl ((hc.live p).mpr ⟨b, hb, he⟩)
    rw [hc.contents_none hno, hc'.contents_none fun b hb he => hno b ((hp b he).mp hb) he]

theorem Backed.null_not_live (hc : Backed c h) : nullptr ∉ c.live := by
  intro hl
  obtain ⟨b, hb, he⟩ := (hc.live _).mp hl
  exact hc.holds.rep.placed.payload_ne (mem_of_used hb) he

/-! What an allocation does to the clients' pointers and bytes. -/

theorem Allocates.backed {n : Nat} (hc : Backed c h) (ha : Allocates c.state s' h h' n q) :
    Backed ⟨s', own c.live q⟩ h' := by
  refine ⟨ha.holds, ?_⟩
  intro p
  by_cases hq : q = nullptr
  · rw [own, if_pos hq, hc.live]
    simp only [ha.failed hq]
  · obtain ⟨b, hb, -, -, -, hmem⟩ := ha.given hq
    rw [own, if_neg hq, Finset.mem_insert, hc.live]
    constructor
    · rintro (rfl | ⟨d, hd, he⟩)
      · exact ⟨b, (hmem b).mpr (.inr rfl), hb⟩
      · exact ⟨d, (hmem d).mpr (.inl hd), he⟩
    · rintro ⟨d, hd, rfl⟩
      rcases (hmem d).mp hd with hd | rfl
      · exact .inr ⟨d, hd, rfl⟩
      · exact .inl hb

theorem Allocates.contents_failed {n : Nat} (hc : Backed c h)
    (ha : Allocates c.state s' h h' n nullptr) : (⟨s', c.live⟩ : Client).contents = c.contents := by
  funext p
  have hc' := ha.backed hc
  rw [own, if_pos rfl] at hc'
  refine hc.contents_eq hc' (fun b _ => ha.failed rfl b) fun b hb _ => ha.others b hb

theorem Allocates.contents_given {n : Nat} (hc : Backed c h) (ha : Allocates c.state s' h h' n q)
    (hq : q ≠ nullptr) :
    c.contents q = none ∧ ∃ k, n ≤ k ∧ k < 2 ^ 32 ∧
      (⟨s', own c.live q⟩ : Client).contents =
        Function.update c.contents q (some (s'.mem.bytes q k)) := by
  have hc' := ha.backed hc
  obtain ⟨b, rfl, hn, hfree, hfresh, hmem⟩ := ha.given hq
  refine ⟨hc.contents_none hfresh, b.size.toNat, hn, b.size.isLt, funext ?_⟩
  intro p
  by_cases hp : p = b.payload
  · rw [hp, Function.update_self, hc'.contents_used ((hmem b).mpr (.inr rfl))]
  · rw [Function.update_of_ne hp]
    refine hc.contents_eq hc' ?_ fun d hd _ => ha.others d hd
    intro d hd
    rw [hmem]
    exact or_iff_left fun he => hp (he ▸ hd.symm)

/-! What `kfree` of a live pointer does. -/

theorem kfree_rejected (hp : Rejected s p) : kfree s p = s := if_pos hp

theorem rejected_null (s : State) : Rejected s nullptr := .inl (if_pos (.inl rfl))

theorem kfree_backed (hc : Backed c h) (hb : b ∈ used h.blocks) :
    ∃ h', Backed ⟨kfree c.state b.payload, c.live.erase b.payload⟩ h' ∧
      (⟨kfree c.state b.payload, c.live.erase b.payload⟩ : Client).contents =
        Function.update c.contents b.payload none := by
  obtain ⟨hmem, hfree⟩ := mem_used.mp hb
  obtain ⟨pre, post, hblocks⟩ := List.append_of_mem hmem
  have hrep := hc.holds.rep
  rw [hblocks] at hrep
  obtain ⟨m, hrun, hrep', hout⟩ := kfree_release hrep hfree
  have hplaced := hc.holds.rep.placed
  have hused : ∀ d, d ∈ used (release pre b post) ↔
      d ∈ used h.blocks ∧ d.payload ≠ b.payload := by
    intro d
    rw [← hplaced.mem_used_freeAt hb, hblocks, hrep.placed.freeAt hfree]
  have hc' : Backed ⟨kfree c.state b.payload, c.live.erase b.payload⟩
      ⟨release pre b post, h.mappedEnd⟩ := by
    refine ⟨by rw [hrun]; exact ⟨hrep', hc.holds.mappedEnd⟩, ?_⟩
    intro p
    simp only [Finset.mem_erase, hc.live, hused]
    constructor
    · rintro ⟨hne, d, hd, rfl⟩
      exact ⟨d, ⟨hd, hne⟩, rfl⟩
    · rintro ⟨d, ⟨hd, hne⟩, rfl⟩
      exact ⟨hne, d, hd, rfl⟩
  refine ⟨_, hc', funext ?_⟩
  intro p
  by_cases hp : p = b.payload
  · rw [hp, Function.update_self]
    exact hc'.contents_none fun d hd => ((hused d).mp hd).2
  · rw [Function.update_of_ne hp]
    refine hc.contents_eq hc' ?_ ?_
    · intro d hd
      simp only [hused, and_iff_left_iff_imp]
      exact fun _ he => hp (hd.symm.trans he)
    · intro d hd _ x hx
      rw [hrun]
      exact hout.payload hrep.placed (hblocks ▸ mem_of_used hd) hx

end Kernix.Proofs
