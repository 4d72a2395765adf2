import Kernix.Proofs.HeapRuns

namespace Kernix.Proofs
open Library Memory Memory.HeapBlock Memory.Client

variable {L : Layout} {c : Client} {s : State} {h : Heap} {kernelEnd : U32} {es : List Event}

/-- No request is larger than the heap can ever be. -/
def WithinLimit (e : Event) : Prop := e.1.bytes ≤ heapVirtLimit.toNat

instance (e : Event) : Decidable (WithinLimit e) := inferInstanceAs (Decidable (_ ≤ _))

theorem noWrap_of_withinLimit {e : Event} (he : WithinLimit e) : NoWrap s e.1.bytes :=
  noWrap_of_small he

theorem run_noWrap {c₀ : Client} (hrun : Run (Guarded (fun _ e => WithinLimit e) (Client.Step L)) c₀ es c) :
    Run (Guarded (fun c e => NoWrap c.state e.1.bytes) (Client.Step L)) c₀ es c :=
  hrun.mono fun _ _ _ hs => ⟨noWrap_of_withinLimit hs.1, hs.2⟩

/-- The walks over the list end. -/
theorem Rep.walks_end {bs : List Block} (hr : Rep s bs) :
    (Memory.lastBlock s).isSome ∧ ∀ r, (Memory.findFreeBlock s r).isSome := by
  obtain ⟨pre, t, rfl⟩ := (List.eq_nil_or_concat' bs).resolve_left hr.ne
  exact ⟨by rw [hr.lastBlock]; rfl, fun r => by rw [hr.findFreeBlock]; rfl⟩

/-- After every run of permitted requests within the limit the heap is in order, its walks end
and the next such request returns. -/
theorem heap_stays_sound (L : Layout) (kernelEnd : U32) (s : State)
    (hk : kernelEnd < identityMapLimit)
    (hon : (kmallocInit kernelEnd s).gHeapHead ≠ nullptr)
    (hrun : Run (Guarded (fun _ e => WithinLimit e) (Client.Step L))
      (Client.start (kmallocInit kernelEnd s)) es c) :
    (∃ blocks, Sound c blocks) ∧
      ((lastBlock c.state).isSome ∧ ∀ r, (findFreeBlock c.state r).isSome) ∧
      ∀ req, c.Permitted req → req.bytes ≤ heapVirtLimit.toNat →
        ∃ q s', serve L c.state req = some (q, s') := by
  obtain ⟨h, hc⟩ := run_backed hk hon (run_noWrap hrun)
  refine ⟨⟨_, hc.sound⟩, hc.holds.rep.walks_end, ?_⟩
  intro req hperm hsize
  obtain ⟨q, s', -, hserve, -⟩ := serve_step L hc hperm (noWrap_of_small hsize)
  exact ⟨q, s', hserve⟩

/-! A machine just booted, and its first allocation. -/

def bootLayout : Layout where
  pageDirectory := 0x101000
  pageTablePool := 0x102000
  directory_aligned := by decide
  pool_aligned := by decide
  pool_pos := by decide
  directory_end := by decide
  pool_end := by decide
  disjoint := .inl (by decide)

def resetState : State := ⟨fun _ => 0, ⟨fun _ => 0, fun _ => false⟩, 0, 0, 0, 0⟩

def blankState : State := { resetState with paging := pagingInit bootLayout resetState.paging }

def bootState : State := kmallocInit 0x123456 blankState

def firstCall : U32 × State := (kmalloc bootLayout bootState 16).get (by decide)

theorem firstCall_eq : kmalloc bootLayout bootState 16 = some firstCall := (Option.some_get _).symm

def firstClient : Client := ⟨firstCall.2, own ∅ firstCall.1⟩

theorem first_step : Client.Step bootLayout (Client.start bootState) (.kmalloc 16, firstCall.1)
    firstClient :=
  ⟨trivial, firstCall.2, firstCall_eq, rfl⟩

theorem first_run : Run (Guarded (fun _ e => WithinLimit e) (Client.Step bootLayout))
    (Client.start bootState) [(.kmalloc 16, firstCall.1)] firstClient :=
  .single ⟨by decide, first_step⟩

/-- What `replay` lets a client call. -/
def calls (c : Client) : Request → Bool
  | .kmalloc _ | .kcalloc _ _ => true
  | .krealloc ptr _ | .kfree ptr => decide (ptr = nullptr ∨ ptr ∈ c.live)
  | .write _ _ => false

/-- The calls one after the other, if each of them gives the pointer written with it. -/
def replay (L : Layout) (c : Client) : List Event → Option Client
  | [] => some c
  | (req, q) :: es =>
    if calls c req ∧ req.bytes ≤ heapVirtLimit.toNat then
      match serve L c.state req with
      | some (q', s) => if q' = q then replay L ⟨s, liveAfter c.live (req, q)⟩ es else none
      | none => none
    else none

theorem calls_permitted {req : Request} (h : calls c req = true) : c.Permitted req := by
  cases req with
  | kmalloc _ | kcalloc _ _ => trivial
  | krealloc ptr _ | kfree ptr =>
    have hptr : ptr = nullptr ∨ ptr ∈ c.live := of_decide_eq_true h
    exact hptr
  | write _ _ => cases h

theorem replay_run {c' : Client} (h : replay L c es = some c') :
    Run (Guarded (fun _ e => WithinLimit e) (Client.Step L)) c es c' := by
  induction es generalizing c with
  | nil =>
    obtain rfl := Option.some.inj h
    exact .nil
  | cons e es ih =>
    obtain ⟨req, q⟩ := e
    rw [replay] at h
    split at h
    · rename_i hcall
      split at h
      · rename_i q' s' hserve
        split at h
        · rename_i hq
          subst hq
          exact (Run.single ⟨hcall.2, calls_permitted hcall.1, s', hserve, rfl⟩).append (ih h)
        · cases h
      · cases h
    · cases h

/-- A block that `krealloc` moves, then grows in place, then cuts; growth by a page in between, and
blocks that are freed and merge. -/
def servedCalls : List Event :=
  [(.kcalloc 4 16, 0x123470), (.kmalloc 64, 0x1234C8), (.kmalloc 40, 0x123520),
    (.krealloc 0x1234C8 200, 0x123560), (.kfree 0x123520, nullptr),
    (.krealloc 0x123560 300, 0x123560), (.kmalloc 0x2DD000, 0x1236A8),
    (.kfree 0x123470, nullptr), (.krealloc 0x123560 100, 0x123560)]

theorem served_some : (replay bootLayout (Client.start bootState) servedCalls).isSome = true := by
  decide +kernel

def servedClient : Client := (replay bootLayout (Client.start bootState) servedCalls).get served_some

theorem servedClient_run : Run (Guarded (fun _ e => WithinLimit e) (Client.Step bootLayout))
    (Client.start bootState) servedCalls servedClient :=
  replay_run (Option.some_get _).symm

theorem servedClient_end : servedClient.state.gHeapMappedEnd = 0x401000 := by decide +kernel

theorem heap_stays_sound_boot : ∃ blocks, Sound servedClient blocks :=
  (heap_stays_sound bootLayout 0x123456 blankState (by decide) (by decide) servedClient_run).1

/-- After every run, each call or store changes the bytes behind the clients' pointers as it changes a
map from pointers to byte strings. -/
theorem heap_refines_store (L : Layout) (kernelEnd : U32) (s : State)
    (hk : kernelEnd < identityMapLimit)
    (hon : (kmallocInit kernelEnd s).gHeapHead ≠ nullptr)
    (hrun : Run (Guarded (fun _ e => WithinLimit e) (Client.Step L))
      (Client.start (kmallocInit kernelEnd s)) es c) :
    (∀ e c', Guarded (fun _ e => WithinLimit e) (Client.Step L) c e c' →
      StoreStep c.contents e c'.contents) ∧
    Run StoreStep (fun _ => none) es c.contents := by
  have hempty : (fun _ => none) = (Client.start (kmallocInit kernelEnd s)).contents := by
    funext p
    simp [contents, Client.start]
  constructor
  · intro e c' hstep
    obtain ⟨h, hc⟩ := run_backed hk hon (run_noWrap hrun)
    exact (step_backed hc (noWrap_of_withinLimit hstep.1) hstep.2).2
  · have hsim : ∃ σ, Run StoreStep (fun _ => none) es σ ∧ σ = c.contents ∧ ∃ h, Backed c h := by
      refine (run_noWrap hrun).simulate (R := fun c σ => σ = c.contents ∧ ∃ h, Backed c h)
        ⟨hempty, _, start_backed s hk hon⟩ ?_
      rintro c e c' σ ⟨rfl, h, hc⟩ ⟨hn, hstep⟩
      obtain ⟨hc', hstore⟩ := step_backed hc hn hstep
      exact ⟨_, hstore, rfl, hc'⟩
    obtain ⟨σ, hσ, rfl, -⟩ := hsim
    exact hσ

/-- The block that has moved and been cut is freed after that. -/
theorem heap_refines_store_boot : ∃ c' : Client,
    StoreStep servedClient.contents (.kfree 0x123560, nullptr) c'.contents ∧
      Run StoreStep (fun _ => none) servedCalls servedClient.contents := by
  have hlive : servedClient.Permitted (.kfree 0x123560) := .inr (by decide +kernel)
  obtain ⟨hstep, hrun⟩ := heap_refines_store bootLayout 0x123456 blankState (by decide) (by decide)
    servedClient_run
  have hserve : serve bootLayout servedClient.state (.kfree 0x123560) =
      some (nullptr, kfree servedClient.state 0x123560) := rfl
  exact ⟨_, hstep _ _ ⟨Nat.zero_le _, hlive, _, hserve, rfl⟩, hrun⟩

/-- A pointer the store has just given stands for what was asked. -/
theorem storeStep_enough {σ σ' : Store} {req : Request} {q : U32} (hs : StoreStep σ (req, q) σ')
    (hq : q ≠ nullptr) : ∃ bytes, σ' q = some bytes ∧ req.bytes ≤ bytes.length := by
  cases hs with
  | kmalloc _ _ hlen => exact ⟨_, Function.update_self .., hlen⟩
  | kcalloc _ _ hlen _ => exact ⟨_, Function.update_self .., hlen⟩
  | kreallocNull _ _ hlen => exact ⟨_, Function.update_self .., hlen⟩
  | krealloc _ _ _ _ hlen _ => exact ⟨_, Function.update_self .., hlen⟩
  | _ => exact absurd rfl hq

theorem contents_length {p : U32} {bytes : List Byte} (hc : c.contents p = some bytes) :
    bytes.length = (ksize c.state p).toNat := by
  unfold contents at hc
  split at hc
  · obtain rfl := Option.some.inj hc
    simp
  · simp at hc

/-- In every run of requests that do not wrap, a block handed out is of the size asked for. -/
theorem allocation_large_enough (L : Layout) (kernelEnd : U32) (s : State)
    (hk : kernelEnd < identityMapLimit)
    (hon : (kmallocInit kernelEnd s).gHeapHead ≠ nullptr)
    (hrun : Run (Guarded (fun c e => NoWrap c.state e.1.bytes) (Client.Step L))
      (Client.start (kmallocInit kernelEnd s)) es c)
    {req : Request} {q : U32} {s' : State} (hperm : c.Permitted req)
    (hn : NoWrap c.state req.bytes) (hserve : serve L c.state req = some (q, s'))
    (hq : q ≠ nullptr) : req.bytes ≤ (ksize s' q).toNat := by
  obtain ⟨h, hc⟩ := run_backed hk hon hrun
  obtain ⟨q', s'', -, hserve', -, hstore⟩ := serve_step L hc hperm hn
  obtain ⟨rfl, rfl⟩ : q' = q ∧ s'' = s' := by simpa [hserve'] using hserve
  obtain ⟨bytes, hbytes, hlen⟩ := storeStep_enough hstore hq
  rwa [contents_length hbytes] at hlen

theorem allocation_large_enough_boot : 16 ≤ (ksize firstCall.2 firstCall.1).toNat :=
  allocation_large_enough bootLayout 0x123456 blankState (by decide) (by decide) .nil
    (show (Client.start bootState).Permitted (.kmalloc 16) from trivial)
    (noWrap_of_small (by decide)) firstCall_eq (by decide)

/-- `kmalloc(0xFFFFFFFF)` on a heap just initialised rounds to 0 and is given a block of no bytes. -/
theorem kmalloc_wraps : ∃ q s', serve bootLayout bootState (.kmalloc 0xFFFFFFFF) = some (q, s') ∧
    q ≠ nullptr ∧ (ksize s' q).toNat < (Request.kmalloc 0xFFFFFFFF).bytes := by
  have hsome : (kmalloc bootLayout bootState 0xFFFFFFFF).isSome := by decide
  refine ⟨_, _, (Option.some_get hsome).symm, ?_, ?_⟩
  · decide
  · decide

end Kernix.Proofs
