import Kernix.Proofs.HeapGuarantees
import Kernix.Proofs.Merged

namespace Kernix.Proofs
open Library Memory Memory.HeapBlock Memory.Client

variable {L : Layout} {c : Client} {s s' : State} {h h' : Heap} {bs bs' : List Block} {b : Block}
  {p q : U32}

/-- The bytes from the head of the list on spell `bs`: addresses, sizes, flags and links. -/
structure Lists (s : State) (bs : List Block) : Prop where
  head : firstAddr bs nullptr = s.gHeapHead
  nonnull : ∀ b ∈ bs, b.addr ≠ nullptr
  linked : Linked s.mem nullptr bs nullptr

theorem Rep.lists (hr : Rep s bs) : Lists s bs :=
  ⟨hr.firstAddr, fun _ hb => hr.placed.addr_ne hb, hr.linked⟩

theorem flag_injective {f g : Bool} (he : flag f = flag g) : f = g := by
  cases f <;> cases g <;> first | rfl | exact absurd he (by decide)

theorem header_injective {d : Block} {prev prev' next next' : U32} (ha : b.addr = d.addr)
    (he : header b prev next = header d prev' next') : b = d ∧ next = next' := by
  simp only [header, HeapBlock.mk.injEq] at he
  obtain ⟨-, hsize, hfree, -, hnext⟩ := he
  have hfree := flag_injective hfree
  cases b
  cases d
  simp_all

/-- Entered at one address, memory spells one list. -/
theorem Linked.unique {m : Mem} {p p' : U32} (hl : Linked m p bs nullptr)
    (hl' : Linked m p' bs' nullptr) (hne : ∀ b ∈ bs, b.addr ≠ nullptr)
    (hne' : ∀ b ∈ bs', b.addr ≠ nullptr) (he : firstAddr bs nullptr = firstAddr bs' nullptr) :
    bs = bs' := by
  induction bs generalizing p p' bs' with
  | nil =>
    cases bs' with
    | nil => rfl
    | cons b' bs' => exact absurd he.symm (hne' b' (by simp))
  | cons b bs ih =>
    cases bs' with
    | nil => exact absurd he (hne b (by simp))
    | cons b' bs' =>
      obtain ⟨hb, hrest⟩ := hl
      obtain ⟨hb', hrest'⟩ := hl'
      rw [firstAddr_cons, firstAddr_cons] at he
      rw [← he, hb] at hb'
      obtain ⟨rfl, hnext⟩ := header_injective he hb'
      rw [ih hrest hrest' (fun d hd => hne d (by simp [hd])) (fun d hd => hne' d (by simp [hd])) hnext]

theorem Lists.unique (hl : Lists s bs) (hl' : Lists s bs') : bs = bs' :=
  hl.linked.unique hl'.linked hl.nonnull hl'.nonnull (hl.head.trans hl'.head.symm)

/-! The requests, on the list. -/

def kmallocList (size : U32) (h : Heap) : Heap :=
  if size = 0 then h else (malloc (alignUp size allocAlign) h).2

/-- The list of blocks after a request. -/
def requestList (h : Heap) : Request → Heap
  | .kmalloc size => kmallocList size h
  | .kcalloc count size =>
    if 2 ^ 32 ≤ count.toNat * size.toNat then h else kmallocList (count * size) h
  | .krealloc ptr newSize =>
    if ptr = nullptr then kmallocList newSize h
    else if newSize = 0 then { h with blocks := freeAt ptr h.blocks }
    else (realloc ptr (alignUp newSize allocAlign) h).2
  | .kfree ptr => { h with blocks := freeAt ptr h.blocks }
  | .write _ _ => h

theorem findUsed_none (hp : ∀ b ∈ bs, b.payload ≠ p) : findUsed p bs = none := by
  induction bs with
  | nil => rfl
  | cons b bs ih =>
    rw [findUsed, if_neg (fun hb => hp b (by simp) hb.1), ih fun d hd => hp d (by simp [hd])]
    rfl

/-- No block has a null payload: freeing null does nothing. -/
theorem Placed.freeAt_null {lo : Nat} (hp : Placed lo bs) : Memory.freeAt nullptr bs = bs := by
  rw [Memory.freeAt, findUsed_none fun b hb => hp.payload_ne hb]

theorem kmalloc_list (hs : Holds s h) {size : U32} (hn : NoWrap s size.toNat)
    (hrun : kmalloc L s size = some (q, s')) :
    Holds s' (kmallocList size h) ∧
      (q ≠ nullptr → ∃ b ∈ (kmallocList size h).blocks, b.payload = q ∧ size.toNat ≤ b.size.toNat) := by
  by_cases hsize : size = 0
  · rw [kmalloc, if_pos (.inl hsize)] at hrun
    obtain ⟨rfl, rfl⟩ := Prod.mk.inj (Option.some.inj hrun)
    rw [kmallocList, if_pos hsize]
    exact ⟨hs, fun hq => absurd rfl hq⟩
  · obtain ⟨m, pg, ph, me, hrun', hs', -⟩ :=
      kmalloc_malloc L hs hsize (noWrap_le hn) (growsSoundly_of_noWrap hs.rep hsize hn)
    have hround := (alignUp_request hsize (noWrap_le hn)).1
    rw [hrun] at hrun'
    obtain ⟨rfl, rfl⟩ := Prod.mk.inj (Option.some.inj hrun')
    rw [kmallocList, if_neg hsize]
    refine ⟨hs', ?_⟩
    intro hq
    rcases malloc_adds hs'.rep.placed with ⟨hq0, -⟩ | ⟨b, hb, -, hadds⟩
    · exact absurd hq0 hq
    · refine ⟨b, mem_of_used ((hadds.mem b).mpr (.inr rfl)), hb, ?_⟩
      exact Nat.le_trans hround hadds.enough

/-- The zeroes of `kcalloc` go to the block it was given. -/
theorem kcalloc_list (hs : Holds s h) {count size : U32}
    (hn : NoWrap s (count.toNat * size.toNat)) (hrun : kcalloc L s count size = some (q, s')) :
    Holds s' (requestList h (.kcalloc count size)) := by
  unfold requestList
  dsimp only
  by_cases hzero : count = 0 ∨ size = 0
  · rw [kcalloc_refused L s (.inl hzero)] at hrun
    obtain ⟨-, rfl⟩ := Prod.mk.inj (Option.some.inj hrun)
    have hprod : count * size = 0 := by rcases hzero with rfl | rfl <;> simp
    rwa [hprod, kmallocList, if_pos rfl, ite_self]
  by_cases hbig : 0xFFFFFFFF < count.toNat * size.toNat
  · rw [kcalloc_refused L s (.inr hbig)] at hrun
    obtain ⟨-, rfl⟩ := Prod.mk.inj (Option.some.inj hrun)
    rwa [if_pos (by omega)]
  have hnat := toNat_product hbig
  rw [if_neg (by omega)]
  rw [← hnat] at hn
  obtain ⟨q₁, s₁, h₁, hkm, -⟩ := kmalloc_allocates L hs hn
  obtain ⟨hs₁, hgiven⟩ := kmalloc_list hs hn hkm
  rw [kcalloc_asked L s hzero hbig, hkm, Option.map_some] at hrun
  dsimp only at hrun
  split at hrun
  · obtain ⟨-, rfl⟩ := Prod.mk.inj (Option.some.inj hrun)
    exact hs₁
  · rename_i hq
    obtain ⟨b, hb, hbq, hsize⟩ := hgiven hq
    obtain ⟨-, rfl⟩ := Prod.mk.inj (Option.some.inj hrun)
    refine ⟨hs₁.rep.congr_payload hb ?_, hs₁.mappedEnd⟩
    intro x hx
    apply Mem.storeBytes_outside (Nat.le_of_lt (count * size).isLt)
    rw [← hbq]
    exact Nat.le_trans hsize (Nat.le_of_not_lt hx)

theorem kfree_list (hc : Backed c h) (hp : p = nullptr ∨ p ∈ c.live) :
    Holds (kfree c.state p) { h with blocks := freeAt p h.blocks } := by
  rcases hp with rfl | hp
  · rw [kfree_rejected (rejected_null _), hc.holds.rep.placed.freeAt_null]
    exact hc.holds
  · obtain ⟨b, hb, rfl⟩ := (hc.live p).mp hp
    obtain ⟨hmem, hfree⟩ := mem_used.mp hb
    obtain ⟨pre, post, hblocks⟩ := List.append_of_mem hmem
    have hrep := hc.holds.rep
    rw [hblocks] at hrep
    obtain ⟨m, hrun, hrep', -⟩ := kfree_release hrep hfree
    rw [hrun, hblocks, hrep.placed.freeAt hfree]
    exact ⟨hrep', hc.holds.mappedEnd⟩

theorem krealloc_list (hc : Backed c h) {n : U32} (hp : p = nullptr ∨ p ∈ c.live)
    (hn : NoWrap c.state n.toNat) (hrun : krealloc L c.state p n = some (q, s')) :
    Holds s' (requestList h (.krealloc p n)) := by
  unfold requestList
  dsimp only
  by_cases hnull : p = nullptr
  · rw [hnull, krealloc_null] at hrun
    rw [if_pos hnull]
    exact (kmalloc_list hc.holds hn hrun).1
  rw [if_neg hnull]
  by_cases hzero : n = 0
  · rw [hzero, krealloc_zero L c.state hnull] at hrun
    obtain ⟨-, rfl⟩ := Prod.mk.inj (Option.some.inj hrun)
    rw [if_pos hzero]
    exact kfree_list hc hp
  · obtain ⟨b, hb, rfl⟩ := (hc.live p).mp (hp.resolve_left hnull)
    obtain ⟨s₁, hrun', ha⟩ := krealloc_realloc L hc.holds hb hzero (noWrap_le hn)
      (growsSoundly_of_noWrap hc.holds.rep hzero hn)
    rw [hrun] at hrun'
    obtain ⟨-, rfl⟩ := Prod.mk.inj (Option.some.inj hrun')
    rw [if_neg hzero]
    exact ha.holds

/-- Each request does to the heap what it does to the list. -/
theorem serve_list (hc : Backed c h) {req : Request} (hperm : c.Permitted req)
    (hn : NoWrap c.state req.bytes) (hrun : serve L c.state req = some (q, s')) :
    Holds s' (requestList h req) := by
  cases req with
  | kmalloc n => exact (kmalloc_list hc.holds hn hrun).1
  | kcalloc k n => exact kcalloc_list hc.holds hn hrun
  | krealloc p n => exact krealloc_list hc hperm hn hrun
  | kfree p =>
    obtain ⟨-, rfl⟩ := Prod.mk.inj (Option.some.inj hrun)
    exact kfree_list hc hperm
  | write x v =>
    obtain ⟨p, hp, hx⟩ := hperm
    obtain ⟨b, hb, rfl⟩ := (hc.live p).mp hp
    rw [hc.holds.rep.ksize hb] at hx
    obtain ⟨-, rfl⟩ := Prod.mk.inj (Option.some.inj hrun)
    exact (write_backed hc hb v hx).1.holds

theorem Holds.unique (hs : Holds s h) (hs' : Holds s h') : h = h' := by
  have hblocks := hs.rep.lists.unique hs'.rep.lists
  have hend := hs.mappedEnd.symm.trans hs'.mappedEnd
  cases h
  cases h'
  simp_all

/-- A step of a client, with the list it leaves. -/
theorem step_list (hc : Backed c h) {e : Event} {c' : Client} (hn : NoWrap c.state e.1.bytes)
    (hstep : Client.Step L c e c') : Backed c' (requestList h e.1) := by
  obtain ⟨⟨h', hc'⟩, -⟩ := step_backed hc hn hstep
  obtain ⟨hperm, s', hserve, rfl⟩ := hstep
  have hs' := serve_list hc hperm hn hserve
  exact hc'.holds.unique hs' ▸ hc'

end Kernix.Proofs
