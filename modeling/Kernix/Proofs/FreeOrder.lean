import Kernix.Proofs.Coalescing

namespace Kernix.Proofs
open Library Memory Memory.HeapBlock Memory.Client

variable {L : Layout} {c : Client} {s : State} {h : Heap} {bs pre mid post xs ys : List Block}
  {b d n : Block} {lo lob lod : Nat} {p q kernelEnd : U32} {es : List Event}

/-! Freeing, as a normal form of the list. -/

theorem coalesce_free (hb : b.free = true) (bs : List Block) :
    coalesce (b :: bs) = mergeNext b (coalesce bs) := by
  rw [coalesce, if_pos hb]

theorem coalesce_used (hb : b.free = false) (bs : List Block) :
    coalesce (b :: bs) = b :: coalesce bs := by
  rw [coalesce, hb]
  rfl

/-- Two free blocks can be taken in one after the other, or at once. -/
theorem mergeNext_mergeNext (hn : n.free = true) (b : Block) (bs : List Block) :
    mergeNext b (mergeNext n bs) = mergeNext { b with size := b.size + (24 + n.size) } bs := by
  cases bs with
  | nil => exact mergeNext_free hn
  | cons d bs =>
    cases hd : d.free with
    | false =>
      rw [mergeNext_used hd, mergeNext_used hd, mergeNext_free hn]
    | true =>
      rw [mergeNext_free hd, mergeNext_free hd, mergeNext_free (by exact hn)]
      congr 2
      dsimp only
      rw [BitVec.add_assoc b.size, BitVec.add_assoc 24 n.size]

theorem coalesce_merged (hm : Merged bs) : coalesce bs = bs := by
  induction bs with
  | nil => rfl
  | cons b bs ih =>
    obtain ⟨hbs, hfirst⟩ := merged_cons.mp hm
    cases hb : b.free with
    | false => rw [coalesce_used hb, ih hbs]
    | true => rw [coalesce_free hb, ih hbs, mergeNext_firstUsed (hfirst hb)]

/-- The part in front can be coalesced first. -/
theorem coalesce_front (xs ys : List Block) : coalesce (coalesce xs ++ ys) = coalesce (xs ++ ys) := by
  induction xs with
  | nil => rfl
  | cons b xs ih =>
    rw [List.cons_append]
    cases hb : b.free with
    | false => rw [coalesce_used hb, coalesce_used hb, List.cons_append, coalesce_used hb, ih]
    | true =>
      rw [coalesce_free hb, coalesce_free hb, ← ih]
      cases hxs : coalesce xs with
      | nil => exact coalesce_free hb ys
      | cons n rest =>
        cases hn : n.free with
        | false =>
          rw [mergeNext_used hn]
          exact coalesce_free hb _
        | true =>
          rw [mergeNext_free hn, List.cons_append, List.cons_append, coalesce_free (by exact hb),
            coalesce_free hn, mergeNext_mergeNext hn]

/-- And so can the part behind. -/
theorem coalesce_back (xs : List Block) (hm : Merged (coalesce ys)) :
    coalesce (xs ++ coalesce ys) = coalesce (xs ++ ys) := by
  induction xs with
  | nil => exact coalesce_merged hm
  | cons b xs ih =>
    rw [List.cons_append, List.cons_append, coalesce, coalesce, ih]

/-- Behind merged blocks, the last of them takes in what it can. -/
theorem coalesce_append (hm : Merged pre) (ys : List Block) :
    coalesce (pre ++ ys) = mergeLast pre (coalesce ys) := by
  induction pre with
  | nil => rfl
  | cons b pre ih =>
    obtain ⟨hpre, hfirst⟩ := merged_cons.mp hm
    rw [List.cons_append, coalesce, ih hpre]
    cases pre with
    | nil => rfl
    | cons c pre =>
      rw [mergeLast]
      cases hb : b.free with
      | false => rfl
      | true =>
        have hc : c.free = false := firstUsed_cons.mp (hfirst hb)
        obtain ⟨rest, hrest⟩ : ∃ rest, mergeLast (c :: pre) (coalesce ys) = c :: rest := by
          cases pre with
          | nil => exact ⟨_, by rw [mergeLast, hc]; rfl⟩
          | cons d pre => exact ⟨_, rfl⟩
        rw [hrest, if_pos rfl, mergeNext_used hc]

/-- Releasing a block of a merged list is coalescing the list with the block marked free. -/
theorem release_coalesce (hb : b.free = false) (hm : Merged (pre ++ b :: post)) :
    release pre b post = coalesce (pre ++ { b with free := true } :: post) := by
  obtain ⟨hpre, hpost⟩ := (merged_used hb).mp hm
  rw [coalesce_append hpre, coalesce_free rfl, coalesce_merged hpost, release]

theorem mergeNext_append (b : Block) (xs : List Block) (hys : FirstUsed ys) :
    mergeNext b (xs ++ ys) = mergeNext b xs ++ ys := by
  cases xs with
  | nil => exact mergeNext_firstUsed hys
  | cons n xs =>
    cases hn : n.free with
    | false => rw [List.cons_append, mergeNext_used hn, mergeNext_used hn]; rfl
    | true => rw [List.cons_append, mergeNext_free hn, mergeNext_free hn]; rfl

/-- A used block is where the runs end. -/
theorem coalesce_split (hd : d.free = false) (xs ys : List Block) :
    coalesce (xs ++ d :: ys) = coalesce xs ++ d :: coalesce ys := by
  induction xs with
  | nil => exact coalesce_used hd ys
  | cons b xs ih =>
    rw [List.cons_append]
    cases hb : b.free with
    | false => rw [coalesce_used hb, coalesce_used hb, ih, List.cons_append]
    | true =>
      rw [coalesce_free hb, coalesce_free hb, ih, mergeNext_append _ _ (firstUsed_cons.mpr hd)]

/-- Both freed, in either order: the two marked free and the runs made one. -/
theorem freeAt_freeAt (hm : Merged (pre ++ b :: (mid ++ d :: post)))
    (hp : Placed lo (pre ++ b :: (mid ++ d :: post))) (hb : b.free = false) (hd : d.free = false)
    (hpb : Placed lob (freeAt b.payload (pre ++ b :: (mid ++ d :: post))))
    (hpd : Placed lod (freeAt d.payload (pre ++ b :: (mid ++ d :: post)))) :
    freeAt d.payload (freeAt b.payload (pre ++ b :: (mid ++ d :: post))) =
        coalesce (pre ++ { b with free := true } :: (mid ++ { d with free := true } :: post)) ∧
      freeAt b.payload (freeAt d.payload (pre ++ b :: (mid ++ d :: post))) =
        coalesce (pre ++ { b with free := true } :: (mid ++ { d with free := true } :: post)) := by
  obtain ⟨hpre, hrest⟩ := (merged_used hb).mp hm
  obtain ⟨-, hpost⟩ := (merged_used hd).mp hrest
  have hsplit : pre ++ b :: (mid ++ d :: post) = (pre ++ b :: mid) ++ d :: post := by simp
  have hmb := merged_release hb hm
  have hb₁ : freeAt b.payload (pre ++ b :: (mid ++ d :: post)) =
      coalesce (pre ++ { b with free := true } :: mid) ++ d :: post := by
    rw [hp.freeAt hb, release_coalesce hb hm, ← List.cons_append, ← List.append_assoc,
      coalesce_split hd, coalesce_merged hpost]
  have hd₁ : freeAt d.payload (pre ++ b :: (mid ++ d :: post)) =
      pre ++ b :: coalesce (mid ++ { d with free := true } :: post) := by
    rw [hsplit] at hp hm ⊢
    rw [hp.freeAt hd, release_coalesce hd hm, List.append_assoc, List.cons_append,
      coalesce_split hb, coalesce_merged hpre]
  constructor
  · have hm₁ : Merged (coalesce (pre ++ { b with free := true } :: mid) ++ d :: post) := by
      rw [← hb₁, hp.freeAt hb]
      exact hmb
    rw [hb₁] at hpb ⊢
    rw [hpb.freeAt hd, release_coalesce hd hm₁, coalesce_front, List.append_assoc, List.cons_append]
  · have hm₁ : Merged (pre ++ b :: coalesce (mid ++ { d with free := true } :: post)) := by
      rw [← hd₁]
      rw [hsplit] at hp hm ⊢
      rw [hp.freeAt hd]
      exact merged_release hd hm
    obtain ⟨-, hmid⟩ := (merged_used hb).mp hm₁
    rw [hd₁] at hpd ⊢
    rw [hpd.freeAt hb, release_coalesce hb hm₁]
    have hback := coalesce_back (pre ++ [{ b with free := true }]) hmid
    simpa using hback

theorem freeAt_comm (hm : Merged bs) (hp : Placed lo bs) (hb : b ∈ used bs) (hd : d ∈ used bs)
    (hne : b ≠ d) (hpb : Placed lob (freeAt b.payload bs)) (hpd : Placed lod (freeAt d.payload bs)) :
    freeAt d.payload (freeAt b.payload bs) = freeAt b.payload (freeAt d.payload bs) := by
  obtain ⟨hbm, hbf⟩ := mem_used.mp hb
  obtain ⟨hdm, hdf⟩ := mem_used.mp hd
  obtain ⟨pre, post, rfl⟩ := List.append_of_mem hbm
  rcases List.mem_append.mp hdm with hpre | hpost
  · -- `d` stands before `b`
    obtain ⟨pre, mid, rfl⟩ := List.append_of_mem hpre
    rw [List.append_assoc, List.cons_append] at *
    obtain ⟨h₁, h₂⟩ := freeAt_freeAt hm hp hdf hbf hpd hpb
    rw [h₁, h₂]
  · have hpost : d ∈ post := (List.mem_cons.mp hpost).resolve_left (Ne.symm hne)
    obtain ⟨mid, post, rfl⟩ := List.append_of_mem hpost
    obtain ⟨h₁, h₂⟩ := freeAt_freeAt hm hp hbf hdf hpb hpd
    rw [h₁, h₂]

/-- A live pointer given back: the list, and what is left to its clients. -/
theorem kfree_step (L : Layout) (hc : Backed c h) (hp : p ∈ c.live) :
    Backed ⟨kfree c.state p, c.live.erase p⟩ { h with blocks := freeAt p h.blocks } :=
  step_list (L := L) (e := (.kfree p, nullptr)) hc (noWrap_of_small (Nat.zero_le _))
    ⟨.inr hp, _, rfl, rfl⟩

/-- In every heap reached without `krealloc` two live pointers can be freed in either order: the
list is the same. -/
theorem kfree_order_irrelevant (L : Layout) (kernelEnd : U32) (s : State)
    (hk : kernelEnd < identityMapLimit)
    (hon : (kmallocInit kernelEnd s).gHeapHead ≠ nullptr)
    (hrun : Run (Guarded (fun _ e => WithinLimit e ∧ Plain e) (Client.Step L))
      (Client.start (kmallocInit kernelEnd s)) es c)
    (hp : p ∈ c.live) (hq : q ∈ c.live) (hne : p ≠ q) :
    ∃ bs, Lists (kfree (kfree c.state p) q) bs ∧ Lists (kfree (kfree c.state q) p) bs := by
  obtain ⟨h, hc, hm⟩ := run_merged hk hon hrun
  have hcp := kfree_step L hc hp
  have hcq := kfree_step L hc hq
  have hcpq := kfree_step L hcp (Finset.mem_erase.mpr ⟨Ne.symm hne, hq⟩)
  have hcqp := kfree_step L hcq (Finset.mem_erase.mpr ⟨hne, hp⟩)
  obtain ⟨b, hb, rfl⟩ := (hc.live p).mp hp
  obtain ⟨d, hd, rfl⟩ := (hc.live q).mp hq
  have hbd : b ≠ d := by
    intro he
    exact hne (congrArg Block.payload he)
  have hsame := freeAt_comm hm hc.holds.rep.placed hb hd hbd hcp.holds.rep.placed
    hcq.holds.rep.placed
  refine ⟨_, hcpq.holds.rep.lists, ?_⟩
  dsimp only
  rw [hsame]
  exact hcqp.holds.rep.lists

/-- Two blocks handed out on the heap just initialised, and freed in either order. -/
theorem kfree_order_irrelevant_boot : ∃ q s', kmalloc bootLayout firstCall.2 16 = some (q, s') ∧
    ∃ bs, Lists (kfree (kfree s' firstCall.1) q) bs ∧ Lists (kfree (kfree s' q) firstCall.1) bs := by
  have hboot : Holds bootState (initialHeap 0x123456) :=
    kmallocInit_holds blankState (by decide) (by decide)
  have hfirst : Holds firstCall.2 (kmallocList 16 (initialHeap 0x123456)) :=
    (kmalloc_list hboot (noWrap_of_small (by decide)) firstCall_eq).1
  have hsize : (16 : U32) ≠ 0 := by decide
  obtain ⟨m, pg, ph, me, hsecond, -⟩ := kmalloc_malloc bootLayout hfirst hsize
    (by decide) (growsSoundly_of_noWrap hfirst.rep (by decide) (noWrap_of_small (by decide)))
  have hq : (malloc (alignUp 16 allocAlign) (kmallocList 16 (initialHeap 0x123456))).1 =
      0x123498 := by decide
  have hp : firstCall.1 = 0x123470 := by decide
  rw [hq] at hsecond
  have hstep : Client.Step bootLayout firstClient (.kmalloc 16, 0x123498) _ :=
    ⟨trivial, _, hsecond, rfl⟩
  have hguard : WithinLimit (.kmalloc 16, 0x123498) ∧ Plain (.kmalloc 16, 0x123498) :=
    ⟨by decide, trivial⟩
  have hboth := kfree_order_irrelevant (p := firstCall.1) (q := 0x123498) bootLayout 0x123456
    blankState (by decide) (by decide) (plain_first_run.snoc ⟨hguard, hstep⟩)
    (by simp [liveAfter, firstClient, own, hp, nullptr])
    (by simp [liveAfter, firstClient, own, hp, nullptr]) (by rw [hp]; decide)
  exact ⟨_, _, hsecond, hboth⟩

end Kernix.Proofs
