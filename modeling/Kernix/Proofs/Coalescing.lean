import Kernix.Proofs.FirstFit

namespace Kernix.Proofs
open Library Memory Memory.HeapBlock Memory.Client

variable {L : Layout} {c : Client} {s s' : State} {h : Heap} {bs pre post : List Block} {b : Block}
  {p q r : U32} {kernelEnd : U32} {es : List Event}

/-- Any request but `krealloc`, which can leave two free neighbours. -/
def Plain (e : Event) : Prop :=
  match e.1 with
  | .krealloc _ _ => False
  | _ => True

theorem merged_kmallocList (hm : Merged h.blocks) (size : U32) :
    Merged (kmallocList size h).blocks := by
  unfold kmallocList
  split
  · exact hm
  · exact merged_malloc hm _

theorem merged_kfree (hc : Backed c h) (hm : Merged h.blocks) (hp : p = nullptr ∨ p ∈ c.live) :
    Merged (freeAt p h.blocks) := by
  rcases hp with rfl | hp
  · rwa [hc.holds.rep.placed.freeAt_null]
  · obtain ⟨b, hb, rfl⟩ := (hc.live p).mp hp
    exact merged_freeAt hm hc.holds.rep.placed hb

theorem merged_requestList (hc : Backed c h) (hm : Merged h.blocks) {e : Event} (he : Plain e)
    (hperm : c.Permitted e.1) : Merged (requestList h e.1).blocks := by
  obtain ⟨req, q⟩ := e
  cases req with
  | kmalloc n => exact merged_kmallocList hm n
  | kcalloc k n =>
    simp only [requestList]
    split
    · exact hm
    · exact merged_kmallocList hm _
  | krealloc p n => exact he.elim
  | kfree p => exact merged_kfree hc hm hperm
  | write x v => exact hm

/-- The heap is in order and its free blocks are merged after every run without `krealloc`. -/
theorem run_merged (hk : kernelEnd < identityMapLimit)
    (hon : (kmallocInit kernelEnd s).gHeapHead ≠ nullptr)
    (hrun : Run (Guarded (fun _ e => WithinLimit e ∧ Plain e) (Client.Step L))
      (Client.start (kmallocInit kernelEnd s)) es c) :
    ∃ h, Backed c h ∧ Merged h.blocks := by
  refine hrun.invariant (I := fun c => ∃ h, Backed c h ∧ Merged h.blocks)
    ⟨_, start_backed s hk hon, merged_singleton _⟩ ?_
  rintro c e c' ⟨h, hc, hm⟩ ⟨⟨hlimit, hplain⟩, hstep⟩
  exact ⟨_, step_list hc (noWrap_of_withinLimit hlimit) hstep,
    merged_requestList hc hm hplain hstep.1⟩

/-- Where the last block ends. -/
def chainEnd (s : State) : Option U32 :=
  (lastBlock s).map fun tail => tail + headerSize + (load s.mem tail).size

theorem Rep.chainEnd (hr : Rep s [b]) : chainEnd s = some (b.addr + 24 + b.size) := by
  have hrep : Rep s ([] ++ [b]) := hr
  have hlast : Memory.lastBlock s = some b.addr := hrep.lastBlock
  have hload : (HeapBlock.load s.mem b.addr).size = b.size := by
    rw [hr.linked.1, header]
  rw [Proofs.chainEnd, hlast, Option.map_some, hload, headerSize_eq]

/-- No two neighbours are free after any run without `krealloc`, and one free block is left once
every pointer has been given back. -/
theorem free_blocks_coalesced (L : Layout) (kernelEnd : U32) (s : State)
    (hk : kernelEnd < identityMapLimit)
    (hon : (kmallocInit kernelEnd s).gHeapHead ≠ nullptr)
    (hrun : Run (Guarded (fun _ e => WithinLimit e ∧ Plain e) (Client.Step L))
      (Client.start (kmallocInit kernelEnd s)) es c) :
    ∃ bs, Lists c.state bs ∧ Merged bs ∧
      (c.live = ∅ → ∃ b e, bs = [b] ∧ b.free = true ∧ chainEnd c.state = some e ∧
        b.size.toNat = e.toNat - c.state.gHeapStart.toNat - 24) := by
  obtain ⟨h, hc, hm⟩ := run_merged hk hon hrun
  refine ⟨h.blocks, hc.holds.rep.lists, hm, ?_⟩
  intro hlive
  have hused : used h.blocks = [] := by
    apply List.eq_nil_iff_forall_not_mem.mpr
    intro b hb
    have hp := (hc.live _).mpr ⟨b, hb, rfl⟩
    rw [hlive] at hp
    exact absurd hp (Finset.notMem_empty _)
  obtain ⟨b, hblocks, hfree⟩ := merged_all_free hm hc.holds.rep.ne hused
  have hrep := hc.holds.rep
  rw [hblocks] at hrep
  have haddr : b.addr.toNat = c.state.gHeapStart.toNat := hrep.placed.laid.1
  have hend := hrep.bounds (b := b) (by simp)
  refine ⟨b, _, hblocks, hfree, hrep.chainEnd, ?_⟩
  bv_omega

theorem plain_first_run : Run (Guarded (fun _ e => WithinLimit e ∧ Plain e) (Client.Step bootLayout))
    (Client.start bootState) [(.kmalloc 16, firstCall.1)] firstClient :=
  .single ⟨⟨by decide, trivial⟩, first_step⟩

def freedClient : Client :=
  ⟨kfree firstCall.2 firstCall.1, (own ∅ firstCall.1).erase firstCall.1⟩

theorem freed_step : Client.Step bootLayout firstClient (.kfree firstCall.1, nullptr) freedClient :=
  ⟨.inr (by decide), _, rfl, rfl⟩

/-- The first allocation, given back. -/
theorem freed_run : Run (Guarded (fun _ e => WithinLimit e ∧ Plain e) (Client.Step bootLayout))
    (Client.start bootState) [(.kmalloc 16, firstCall.1), (.kfree firstCall.1, nullptr)]
    freedClient :=
  plain_first_run.snoc ⟨⟨by decide, trivial⟩, freed_step⟩

theorem free_blocks_coalesced_boot : ∃ bs, Lists freedClient.state bs ∧ Merged bs ∧
    ∃ b e, bs = [b] ∧ b.free = true ∧ chainEnd freedClient.state = some e ∧
      b.size.toNat = e.toNat - freedClient.state.gHeapStart.toNat - 24 := by
  obtain ⟨bs, hl, hm, hone⟩ :=
    free_blocks_coalesced bootLayout 0x123456 blankState (by decide) (by decide) freed_run
  exact ⟨bs, hl, hm, hone (by decide)⟩

/-! A block handed out and given back at once. -/

theorem mergeNext_firstUsed (hpost : FirstUsed post) : mergeNext b post = b :: post := by
  cases post with
  | nil => rfl
  | cons n post => exact mergeNext_used (firstUsed_cons.mp hpost)

theorem mergeLast_lastUsed (hpre : LastUsed pre) (bs : List Block) :
    mergeLast pre bs = pre ++ bs := by
  rcases List.eq_nil_or_concat' pre with rfl | ⟨pre, p, rfl⟩
  · rfl
  · have hp : p.free = false := lastUsed_append.mp hpre
    rw [mergeLast_append, mergeLast, if_neg (by simp [hp]), List.append_assoc]
    rfl

/-- Between used neighbours, releasing the block handed out puts its rest back and no more. -/
theorem release_carve (hb : b.free = true) (hpre : LastUsed pre) (hpost : FirstUsed post) (r : U32) :
    ∃ d rest, carve r b = d :: rest ∧ d.addr = b.addr ∧ d.free = false ∧
      release pre d (rest ++ post) = pre ++ b :: post := by
  have hset : ({ b with free := true } : Block) = b := by rw [← hb]
  unfold carve
  by_cases hcut : b.size.toNat < r.toNat + 32
  · refine ⟨_, [], cut_whole hcut, rfl, rfl, ?_⟩
    rw [release, List.nil_append]
    change mergeLast pre (mergeNext { b with free := true } post) = _
    rw [hset, mergeNext_firstUsed hpost, mergeLast_lastUsed hpre]
  · refine ⟨_, _, cut_two (Nat.not_lt.mp hcut), rfl, rfl, ?_⟩
    have hsize : r + (24 + (b.size - r - 24)) = b.size := by bv_omega
    rw [release, List.singleton_append, mergeNext_free rfl, mergeLast_lastUsed hpre]
    change pre ++ { b with size := r + (24 + (b.size - r - 24)), free := true } :: post = _
    rw [hsize, hset]

theorem freeAt_allocate {lo : Nat} (hm : Merged bs) {bs' : List Block}
    (ha : allocate r bs = some (q, bs')) (hp : Placed lo bs') : freeAt q bs' = bs := by
  obtain ⟨pre, b, post, rfl, -, hb, rfl, rfl⟩ := allocate_eq_some.mp ha
  have hb : b.free = true ∧ r ≤ b.size := by simpa [fits] using hb
  obtain ⟨-, -, hpre, hpost⟩ := (merged_free hb.1).mp hm
  obtain ⟨d, rest, hcarve, haddr, hfree, hback⟩ := release_carve hb.1 hpre hpost r
  have hpayload : d.payload = b.payload := congrArg (· + 24) haddr
  rw [hcarve, List.append_assoc, List.cons_append] at hp ⊢
  rw [← hpayload, hp.freeAt hfree, hback]

/-- A `kmalloc` that gives a block and maps no page found it in the list. -/
theorem kmalloc_not_grown (hs : Holds s h) {size : U32} (hpos : 0 < size.toNat)
    (hle : size.toNat ≤ 2 ^ 26) (hrun : kmalloc L s size = some (p, s')) (hp : p ≠ nullptr)
    (hend : s'.gHeapMappedEnd = s.gHeapMappedEnd) :
    ∃ bs', allocate (alignUp size allocAlign) h.blocks = some (p, bs') ∧
      Holds s' { h with blocks := bs' } := by
  obtain ⟨hr, -⟩ := kmalloc_small hs hpos hle hrun
  cases ha : allocate (alignUp size allocAlign) h.blocks with
  | some x =>
    obtain ⟨q, bs'⟩ := x
    obtain ⟨rfl, -, hs'⟩ := kmalloc_fits hs hpos hle hrun ha
    exact ⟨bs', rfl, hs'⟩
  | none =>
    obtain ⟨pre, t, hblocks⟩ := (List.eq_nil_or_concat' h.blocks).resolve_left hs.rep.ne
    have hgrown := ((kmalloc_tail hs hpos hle hrun hblocks ha).2 hp).1
    have hmissing := missing_pos hr.1 (allocate_eq_none.mp ha t (by simp [hblocks]))
    rw [hend, pagesHolding] at hgrown
    omega

/-- In every heap reached without `krealloc`, `kfree` right after a `kmalloc` that found its block
puts the list back. -/
theorem kfree_undoes_kmalloc (L : Layout) (kernelEnd : U32) (s : State)
    (hk : kernelEnd < identityMapLimit)
    (hon : (kmallocInit kernelEnd s).gHeapHead ≠ nullptr)
    (hrun : Run (Guarded (fun _ e => WithinLimit e ∧ Plain e) (Client.Step L))
      (Client.start (kmallocInit kernelEnd s)) es c)
    {size : U32} (hpos : 1 ≤ size.toNat) (hle : size.toNat ≤ heapVirtLimit.toNat)
    (hkm : kmalloc L c.state size = some (p, s')) (hp : p ≠ nullptr)
    (hend : s'.gHeapMappedEnd = c.state.gHeapMappedEnd) :
    ∃ bs, Lists c.state bs ∧ Lists (kfree s' p) bs := by
  obtain ⟨h, hc, hm⟩ := run_merged hk hon hrun
  obtain ⟨bs', ha, hs'⟩ := kmalloc_not_grown hc.holds hpos hle hkm hp hend
  have hstep : Client.Step L c (.kmalloc size, p) ⟨s', own c.live p⟩ := ⟨trivial, s', hkm, rfl⟩
  have hc' := step_list hc (noWrap_of_withinLimit (e := (.kmalloc size, p)) hle) hstep
  rw [hc'.holds.unique hs'] at hc'
  have hlive : p ∈ own c.live p := by simp [own, hp]
  have hback := (kfree_list hc' (.inr hlive)).rep.lists
  rw [freeAt_allocate hm ha hs'.rep.placed] at hback
  exact ⟨h.blocks, hc.holds.rep.lists, hback⟩

theorem kfree_undoes_kmalloc_boot :
    ∃ bs, Lists bootState bs ∧ Lists (kfree firstCall.2 firstCall.1) bs := by
  have hpos : 1 ≤ (16 : U32).toNat := by decide
  exact kfree_undoes_kmalloc bootLayout 0x123456 blankState (by decide) (by decide) .nil hpos
    (by decide) firstCall_eq (by decide) (by decide)

end Kernix.Proofs
