import Mathlib.Tactic.IntervalCases
import Kernix.Proofs.FailedRequests

namespace Kernix.Proofs
open Library Memory Memory.HeapBlock Memory.Client

variable {L : Layout} {c : Client} {s : State} {blocks : List U32} {a p : U32}

theorem blockFromPtr_headerAt (hp : p ≠ nullptr) (h : HeaderAt s p) :
    blockFromPtr s p = p - headerSize := by
  have hin : ¬ (p = nullptr ∨ ¬ ptrInHeap s p) := by simp [hp, h.inside.1]
  have hhead : ¬ (¬ ptrInHeap s (p - headerSize) ∨
      (load s.mem (p - headerSize)).magic ≠ blockMagic) :=
    not_or.mpr ⟨not_not.mpr h.inside.2.2, not_not.mpr h.magic⟩
  rw [blockFromPtr, if_neg hin, if_neg h.inside.2.1, if_neg hhead]

theorem rejected_of_not_headerAt (hp : ¬ HeaderAt s p) : Rejected s p := by
  by_contra hno
  obtain ⟨hblock, hfree⟩ := not_or.mp hno
  unfold blockFromPtr at hblock hfree
  dsimp only at hblock hfree
  split at hblock
  · exact hblock rfl
  · rename_i hin
    split at hblock
    · exact hblock rfl
    · rename_i hlow
      split at hblock
      · exact hblock rfl
      · rename_i hhead
        rw [if_neg hin, if_neg hlow, if_neg hhead, not_not] at hfree
        obtain ⟨-, hin⟩ := not_or.mp hin
        obtain ⟨hhead, hmagic⟩ := not_or.mp hhead
        exact hp ⟨hblock, ⟨by simpa using hin, hlow, by simpa using hhead⟩, by simpa using hmagic,
          hfree⟩

/-- What all four entry points do with a pointer `block_from_ptr` finds no used block for. -/
theorem rejected_unchanged (hp : p ≠ nullptr) (hr : Rejected s p) :
    kfree s p = s ∧ ksize s p = 0 ∧ ∀ n, n ≠ 0 → krealloc L s p n = some (nullptr, s) := by
  refine ⟨kfree_rejected hr, if_pos hr, ?_⟩
  intro n hn
  have hguard : blockFromPtr s p = nullptr ∨
    (load s.mem (blockFromPtr s p)).free ≠ 0 := hr
  simp only [krealloc, if_neg hp, if_neg hn, if_pos hguard]
  rfl

/-- A pointer behind a header is taken: asked for so much that it rounds to 0, `krealloc` gives it
back. -/
theorem krealloc_headerAt (hp : p ≠ nullptr) (h : HeaderAt s p) :
    ∃ s', krealloc L s p 0xFFFFFFFF = some (p, s') := by
  have hblock := blockFromPtr_headerAt hp h
  have hguard : ¬ (p - headerSize = nullptr ∨ (load s.mem (p - headerSize)).free ≠ 0) :=
    not_or.mpr ⟨h.block_ne, not_not.mpr h.used⟩
  have hround : alignUp 0xFFFFFFFF allocAlign ≤ (load s.mem (p - headerSize)).size := by
    rw [show alignUp 0xFFFFFFFF allocAlign = 0 from by decide]
    exact Nat.zero_le _
  refine ⟨{ s with mem := splitBlock s.mem (p - headerSize) (alignUp 0xFFFFFFFF allocAlign) }, ?_⟩
  simp only [krealloc, if_neg hp, if_neg (show (0xFFFFFFFF : U32) ≠ 0 by decide), hblock,
    if_neg hguard, if_pos hround]
  rfl

/-! Headers of a heap in order, byte by byte. -/

theorem chain_next {α : Type} {R : α → α → Prop} {l : List α} {x : α} (h : l.IsChain R)
    (hx : x ∈ l) : l.getLast? = some x ∨ ∃ y ∈ l, R x y := by
  induction h with
  | nil => simp at hx
  | singleton y => simp_all
  | @cons_cons y z l hyz hl ih =>
    rcases List.mem_cons.mp hx with rfl | hx
    · exact .inr ⟨z, by simp, hyz⟩
    · rcases ih hx with hlast | ⟨w, hw, hR⟩
      · exact .inl (by simpa using hlast)
      · exact .inr ⟨w, by simp [hw], hR⟩

theorem chain_prev {α : Type} {R : α → α → Prop} {l : List α} {x : α} (h : l.IsChain R)
    (hx : x ∈ l) : l.head? = some x ∨ ∃ y ∈ l, R y x := by
  induction h with
  | nil => simp at hx
  | singleton y => simp_all
  | @cons_cons y z l hyz hl ih =>
    rcases List.mem_cons.mp hx with rfl | hx
    · exact .inl rfl
    · rcases ih hx with hhead | ⟨w, hw, hR⟩
      · obtain rfl : z = x := by simpa using hhead
        exact .inr ⟨y, by simp, hyz⟩
      · exact .inr ⟨w, by simp [hw], hR⟩

/-- A pointer of the list: null or a block, so a multiple of 8 below 64 MB. -/
theorem sound_block_addr (hs : Sound c blocks) (ha : a ∈ blocks) :
    a.toNat % 8 = 0 ∧ a.toNat < 2 ^ 26 := by
  refine ⟨hs.block_aligned a ha, ?_⟩
  obtain ⟨pre, t, rfl⟩ := (List.eq_nil_or_concat' blocks).resolve_left (List.ne_nil_of_mem ha)
  have hlast := (hs.last t (by simp)).2
  have hlimit : c.state.gHeapMappedEnd.toNat ≤ 2 ^ 26 := hs.limit
  have hle : a.toNat ≤ t.toNat := by
    rcases List.mem_append.mp ha with ha | ha
    · exact Nat.le_of_lt ((List.pairwise_append.mp hs.increasing).2.2 a ha t (by simp))
    · rw [List.mem_singleton.mp ha]
  omega

theorem sound_links (hs : Sound c blocks) (ha : a ∈ blocks) :
    ((load c.state.mem a).prev.toNat % 8 = 0 ∧ (load c.state.mem a).prev.toNat < 2 ^ 26) ∧
      ((load c.state.mem a).next.toNat % 8 = 0 ∧ (load c.state.mem a).next.toNat < 2 ^ 26) := by
  constructor
  · rcases chain_prev hs.follows ha with hfirst | ⟨b, hb, hba⟩
    · rw [hs.first a hfirst]
      decide
    · rw [hba.prev]
      exact sound_block_addr hs hb
  · rcases chain_next hs.follows ha with hlast | ⟨b, hb, hab⟩
    · rw [(hs.last a hlast).1]
      decide
    · rw [hab.next]
      exact sound_block_addr hs hb

/-- What the byte `k` of a header in order can be: one of the magic word's, or an end of a field
that is a multiple of 8, a flag, or below 64 MB. -/
def headerByte (k v : Nat) : Bool :=
  match k with
  | 0 => v == 0x41
  | 1 => v == 0x45
  | 2 => v == 0x48
  | 3 => v == 0x4B
  | 4 | 12 | 16 => v % 8 == 0
  | 8 => v ≤ 1
  | 9 | 10 | 11 => v == 0
  | 15 | 19 => v < 4
  | _ => true

theorem sound_headerByte (hs : Sound c blocks) (ha : a ∈ blocks) {k : Nat} (hk : k < 20) :
    headerByte k (c.state.mem (a + BitVec.ofNat 32 k)).toNat := by
  have hmagic : (c.state.mem.read32 (a + 0#32)).toNat = 0x4B484541 := by
    rw [BitVec.add_zero]
    exact congrArg BitVec.toNat (hs.magic a ha)
  have hsize : (c.state.mem.read32 (a + 4#32)).toNat % 8 = 0 := hs.size_aligned a ha
  have hflag : (c.state.mem.read32 (a + 8#32)).toNat ≤ 1 := hs.flag a ha
  obtain ⟨⟨hprev8, hprev⟩, hnext8, hnext⟩ := sound_links hs ha
  change (c.state.mem.read32 (a + 12#32)).toNat % 8 = 0 at hprev8
  change (c.state.mem.read32 (a + 12#32)).toNat < 2 ^ 26 at hprev
  change (c.state.mem.read32 (a + 16#32)).toNat % 8 = 0 at hnext8
  change (c.state.mem.read32 (a + 16#32)).toNat < 2 ^ 26 at hnext
  have hbyte := Mem.byte_of_read32 c.state.mem (a + BitVec.ofNat 32 (k / 4 * 4))
    (Nat.mod_lt k (show 0 < 4 by decide))
  rw [BitVec.add_assoc, ← BitVec.ofNat_add, Nat.div_add_mod'] at hbyte
  rw [hbyte]
  interval_cases k <;> simp only [headerByte, beq_iff_eq, decide_eq_true_eq, Nat.reduceDiv,
    Nat.reduceMul, Nat.reduceMod, Nat.reducePow]
  all_goals omega

/-- Laid over a header anywhere but at its start, the magic word has a byte the header cannot
have. Offset 3 is the start, 0 three bytes before it. -/
theorem magic_clashes : ∀ d < 23, d ≠ 3 → ∃ i < 4, 3 ≤ d + i ∧ d + i < 23 ∧
    headerByte (d + i - 3) (0x4B484541 / 2 ^ (8 * i) % 2 ^ 8) = false := by
  decide

/-- The magic word cannot be read across a header's bytes except at its start. -/
theorem magic_only_at_header (hs : Sound c blocks) (ha : a ∈ blocks) {x : U32}
    (hx : c.state.mem.read32 x = blockMagic) {k : Nat} (hk : k < 4)
    (hin : InHeader a (x + BitVec.ofNat 32 k)) : x = a := by
  by_contra hne
  have hd : (x + 3 - a).toNat < 23 ∧ (x + 3 - a).toNat ≠ 3 := by
    unfold InHeader at hin
    bv_omega
  obtain ⟨i, hi, hlow, hhigh, hclash⟩ := magic_clashes _ hd.1 hd.2
  have hbyte := Mem.byte_of_read32 c.state.mem x hi
  rw [hx] at hbyte
  have hsame : x + BitVec.ofNat 32 i = a + BitVec.ofNat 32 ((x + 3 - a).toNat + i - 3) := by
    bv_omega
  have hcan := sound_headerByte hs ha (k := (x + 3 - a).toNat + i - 3) (by omega)
  rw [← hsame, hbyte] at hcan
  exact absurd (hcan.symm.trans hclash) (by decide)

/-- A pointer that is no live one is turned away, with nothing changed, exactly where the bytes before
it are no header of a used block. Where they are one, they lie outside every header of the heap: it
is what a merge or a copy has left there, or a client has written. -/
theorem pointer_rejected_iff (L : Layout) (c : Client) (hp : p ≠ nullptr) (hlive : p ∉ c.live) :
    ((kfree c.state p = c.state ∧ ksize c.state p = 0 ∧
      ∀ n, n ≠ 0 → krealloc L c.state p n = some (nullptr, c.state)) ↔ ¬ HeaderAt c.state p) ∧
    (HeaderAt c.state p → ∀ blocks, Sound c blocks → ∀ a ∈ blocks, ∀ k < 4,
      ¬ InHeader a (p - headerSize + BitVec.ofNat 32 k)) := by
  refine ⟨⟨?_, fun hnot => rejected_unchanged hp (rejected_of_not_headerAt hnot)⟩, ?_⟩
  · rintro ⟨-, -, hfails⟩ hat
    obtain ⟨s', hserved⟩ := krealloc_headerAt (L := L) hp hat
    have hsame := (hfails _ (by decide)).symm.trans hserved
    exact hp (Prod.mk.inj (Option.some.inj hsame)).1.symm
  · intro hat blocks hs a ha k hk hin
    have hx := magic_only_at_header hs ha hat.magic hk hin
    rw [headerSize_eq] at hx
    refine hlive ((hs.live p).mpr ⟨a, ha, ?_, ?_⟩)
    · rw [← hx]
      have := hat.used
      rwa [headerSize_eq] at this
    · rw [blockPayload, headerSize_eq, ← hx, BitVec.sub_add_cancel]

/-! Three blocks, of which the first two are freed and handed out again as one. -/

def mergedCalls : List Event :=
  [(.kmalloc 64, 0x123470), (.kmalloc 64, 0x1234C8), (.kmalloc 64, 0x123520),
    (.kfree 0x1234C8, nullptr), (.kfree 0x123470, nullptr), (.kmalloc 152, 0x123470)]

theorem merged_some : (replay bootLayout (Client.start bootState) mergedCalls).isSome = true := by
  decide +kernel

def mergedClient : Client := (replay bootLayout (Client.start bootState) mergedCalls).get merged_some

theorem merged_run : Run (Guarded (fun _ e => WithinLimit e) (Client.Step bootLayout))
    (Client.start bootState) mergedCalls mergedClient :=
  replay_run (Option.some_get _).symm

/-- The header of the second block is still there in the payload, but says that it is free. -/
theorem pointer_rejected_iff_freed : kfree mergedClient.state 0x1234C8 = mergedClient.state := by
  have hfree : (load mergedClient.state.mem (0x1234C8 - headerSize)).free ≠ 0 := by decide +kernel
  have hiff := (pointer_rejected_iff bootLayout mergedClient (p := 0x1234C8) (by decide)
    (by decide +kernel)).1
  exact (hiff.mpr fun hat => hfree hat.used).1

def storeByte (c : Client) (x : U32) (v : Byte) : Client :=
  ⟨{ c.state with mem := c.state.mem.write8 x v }, c.live⟩

theorem storeByte_step {x : U32} {v : Byte} (hp : p ∈ c.live)
    (hx : (x - p).toNat < (ksize c.state p).toNat) :
    Guarded (fun _ e => WithinLimit e) (Client.Step L) c (.write x v, nullptr) (storeByte c x v) :=
  ⟨Nat.zero_le _, ⟨p, hp, hx⟩, _, rfl, rfl⟩

/-- The client stores one zero in its block. Freed a second time, the second block is found again:
`kfree` of a pointer nobody owns writes into the client's block. -/
theorem stale_header_accepted :
    ∃ es c, Run (Guarded (fun _ e => WithinLimit e) (Client.Step bootLayout))
        (Client.start bootState) es c ∧
      (0x1234C8 : U32) ≠ nullptr ∧ 0x1234C8 ∉ c.live ∧
      (kfree c.state 0x1234C8).mem 0x1234B8 ≠ c.state.mem 0x1234B8 := by
  have hstore := storeByte_step (L := bootLayout) (c := mergedClient) (p := 0x123470)
    (x := 0x1234B8) (v := 0) (by decide +kernel) (by decide +kernel)
  exact ⟨_, _, merged_run.snoc hstore, by decide, by decide +kernel, by decide +kernel⟩

end Kernix.Proofs
