import Kernix.Memory.Growth
import Kernix.Proofs.Kmalloc
import Kernix.Proofs.MapPage

namespace Kernix.Proofs
open Library Memory Memory.HeapBlock

variable {L : Layout} {s s' : State} {q size : U32}

/-! Each request grows the heap by its pages and otherwise writes bytes of the heap only. -/

/-- `s'` is `s` with other bytes. -/
def SameMaps (s s' : State) : Prop := ∃ m, s' = { s with mem := m }

theorem SameMaps.refl (s : State) : SameMaps s s := ⟨s.mem, rfl⟩

theorem SameMaps.trans {s'' : State} (h : SameMaps s s') (h' : SameMaps s' s'') : SameMaps s s'' := by
  obtain ⟨m, rfl⟩ := h
  obtain ⟨m', rfl⟩ := h'
  exact ⟨m', rfl⟩

theorem handOut_sameMaps (s : State) (block r : U32) : SameMaps s (handOut s block r).2 := ⟨_, rfl⟩

theorem kfree_sameMaps (s : State) (p : U32) : SameMaps s (kfree s p) := by
  unfold kfree
  dsimp only
  split
  · exact .refl s
  · split
    · exact ⟨_, rfl⟩
    · exact ⟨_, rfl⟩

theorem extendLoop_zero (s : State) : extendLoop L 0 s = (true, s) := rfl

theorem extendHeapToFit_grows {tail r : U32} {ok : Bool} (hlast : lastBlock s = some tail)
    (hhead : s.gHeapHead ≠ nullptr) (h : extendHeapToFit L s r = some (ok, s')) :
    SameMaps (extendLoop L (if tail = nullptr ∨ (load s.mem tail).free ≠ 0 ∧
      r ≤ (load s.mem tail).size then 0 else (pagesNeeded (load s.mem tail) r).toNat) s).2 s' := by
  unfold extendHeapToFit at h
  simp only [if_neg hhead, hlast, Option.bind_eq_bind, Option.bind_some] at h
  by_cases hnull : tail = nullptr
  · rw [if_pos hnull] at h
    obtain ⟨-, rfl⟩ := Prod.mk.inj (Option.some.inj h)
    rw [if_pos (.inl hnull)]
    exact .refl s
  rw [if_neg hnull] at h
  by_cases hfits : (load s.mem tail).free ≠ 0 ∧ r ≤ (load s.mem tail).size
  · rw [if_pos hfits] at h
    obtain ⟨-, rfl⟩ := Prod.mk.inj (Option.some.inj h)
    rw [if_pos (.inr hfits)]
    exact .refl s
  · rw [if_neg hfits] at h
    rw [if_neg (not_or.mpr ⟨hnull, hfits⟩)]
    generalize extendLoop L (pagesNeeded (load s.mem tail) r).toNat s = x at h ⊢
    obtain ⟨_ | _, s₁⟩ := x
    · obtain ⟨-, rfl⟩ := Prod.mk.inj (Option.some.inj h)
      exact .refl _
    · obtain ⟨-, rfl⟩ := Prod.mk.inj (Option.some.inj h)
      exact ⟨_, rfl⟩

theorem lastBlock_of_extend {r : U32} {x : Bool × State} (hhead : s.gHeapHead ≠ nullptr)
    (h : extendHeapToFit L s r = some x) : ∃ tail, lastBlock s = some tail := by
  cases hlast : lastBlock s with
  | none => simp [extendHeapToFit, hhead, hlast] at h
  | some tail => exact ⟨tail, rfl⟩

theorem kmalloc_grows (h : kmalloc L s size = some (q, s')) :
    SameMaps (extendLoop L (kmallocPages s size) s).2 s' := by
  unfold kmalloc at h
  unfold kmallocPages
  dsimp only at h ⊢
  by_cases hstart : size = 0 ∨ s.gHeapHead = nullptr
  · rw [if_pos hstart] at h
    obtain ⟨-, rfl⟩ := Prod.mk.inj (Option.some.inj h)
    rw [if_pos (hstart.imp_right .inl)]
    exact .refl s
  rw [if_neg hstart] at h
  obtain ⟨hsize, hhead⟩ := not_or.mp hstart
  generalize alignUp size allocAlign = r at *
  obtain ⟨block, hfind, h⟩ := Option.bind_eq_some_iff.mp h
  by_cases hblock : block = nullptr
  · subst hblock
    rw [if_neg (not_not.mpr rfl)] at h
    obtain ⟨⟨ok, s₁⟩, hext, h⟩ := Option.bind_eq_some_iff.mp h
    obtain ⟨tail, hlast⟩ := lastBlock_of_extend hhead hext
    have hgrows : ¬ (size = 0 ∨ s.gHeapHead = nullptr ∨ findFreeBlock s r ≠ some nullptr) :=
      not_or.mpr ⟨hsize, not_or.mpr ⟨hhead, not_not.mpr hfind⟩⟩
    rw [if_neg hgrows, hlast]
    refine (extendHeapToFit_grows hlast hhead hext).trans ?_
    split at h
    · obtain ⟨-, rfl⟩ := Prod.mk.inj (Option.some.inj h)
      exact .refl _
    · obtain ⟨block', -, h⟩ := Option.bind_eq_some_iff.mp h
      split at h
      · obtain ⟨-, rfl⟩ := Prod.mk.inj (Option.some.inj h)
        exact .refl _
      · have hs' : (handOut s₁ block' r).2 = s' := congrArg Prod.snd (Option.some.inj h)
        exact hs' ▸ handOut_sameMaps _ _ _
  · rw [if_pos hblock] at h
    have hs' : (handOut s block r).2 = s' := congrArg Prod.snd (Option.some.inj h)
    have hfound : findFreeBlock s r ≠ some nullptr := by
      rw [hfind]
      exact fun he => hblock (Option.some.inj he)
    rw [if_pos (.inr (.inr hfound)), extendLoop_zero]
    exact hs' ▸ handOut_sameMaps _ _ _

theorem kcalloc_grows {count : U32} (h : kcalloc L s count size = some (q, s')) :
    SameMaps (extendLoop L ((Request.kcalloc count size).pages s) s).2 s' := by
  by_cases hzero : count = 0 ∨ size = 0
  · rw [kcalloc_refused L s (.inl hzero)] at h
    obtain ⟨-, rfl⟩ := Prod.mk.inj (Option.some.inj h)
    have hprod : count * size = 0 := by rcases hzero with rfl | rfl <;> simp
    have hpages : kmallocPages s 0 = 0 := by simp [kmallocPages]
    rw [Request.pages, hprod, hpages, ite_self]
    exact .refl s
  by_cases hbig : 0xFFFFFFFF < count.toNat * size.toNat
  · rw [kcalloc_refused L s (.inr hbig)] at h
    obtain ⟨-, rfl⟩ := Prod.mk.inj (Option.some.inj h)
    rw [Request.pages, if_pos (by omega)]
    exact .refl s
  · rw [kcalloc_asked L s hzero hbig] at h
    obtain ⟨⟨p, s₁⟩, hrun, h⟩ := Option.map_eq_some_iff.mp h
    have hgrow := kmalloc_grows hrun
    rw [Request.pages, if_neg (by omega)]
    refine hgrow.trans ?_
    dsimp only at h
    split at h
    · obtain ⟨-, rfl⟩ := Prod.mk.inj h
      exact .refl _
    · obtain ⟨-, rfl⟩ := Prod.mk.inj h
      exact ⟨_, rfl⟩

theorem krealloc_grows {p : U32} (h : krealloc L s p size = some (q, s')) :
    SameMaps (extendLoop L ((Request.krealloc p size).pages s) s).2 s' := by
  unfold krealloc at h
  rw [Request.pages]
  by_cases hnull : p = nullptr
  · rw [if_pos hnull] at h ⊢
    exact kmalloc_grows h
  rw [if_neg hnull] at h ⊢
  by_cases hzero : size = 0
  · rw [if_pos hzero] at h
    rw [if_pos (.inl hzero)]
    obtain ⟨-, rfl⟩ := Prod.mk.inj (Option.some.inj h)
    exact kfree_sameMaps s p
  rw [if_neg hzero] at h
  dsimp only at h
  by_cases hreject : blockFromPtr s p = nullptr ∨ (load s.mem (blockFromPtr s p)).free ≠ 0
  · rw [if_pos hreject] at h
    rw [if_pos (.inr (hreject.imp_right .inl))]
    obtain ⟨-, rfl⟩ := Prod.mk.inj (Option.some.inj h)
    exact .refl s
  rw [if_neg hreject] at h
  have hreject := not_or.mp hreject
  by_cases hfits : FitsInPlace s p size
  · rw [if_pos (.inr (.inr (.inr hfits)))]
    rcases hfits with hfit | hnext
    · rw [if_pos hfit] at h
      obtain ⟨-, rfl⟩ := Prod.mk.inj (Option.some.inj h)
      exact ⟨_, rfl⟩
    · split at h
      · obtain ⟨-, rfl⟩ := Prod.mk.inj (Option.some.inj h)
        exact ⟨_, rfl⟩
      · obtain ⟨-, rfl⟩ := Prod.mk.inj (Option.some.inj h)
        exact ⟨_, rfl⟩
  · have hno : ¬ (size = 0 ∨ blockFromPtr s p = nullptr ∨
        (load s.mem (blockFromPtr s p)).free ≠ 0 ∨ FitsInPlace s p size) := by tauto
    obtain ⟨hfit, hnext⟩ := not_or.mp hfits
    rw [if_neg hfit, if_neg hnext] at h
    rw [if_neg hno]
    obtain ⟨⟨p', s₁⟩, hrun, h⟩ := Option.bind_eq_some_iff.mp h
    refine (kmalloc_grows hrun).trans ?_
    dsimp only at h
    split at h
    · obtain ⟨-, rfl⟩ := Prod.mk.inj (Option.some.inj h)
      exact .refl _
    · obtain ⟨-, rfl⟩ := Prod.mk.inj (Option.some.inj h)
      exact SameMaps.trans ⟨_, rfl⟩ (kfree_sameMaps _ _)

/-- Every request grows the heap by its pages, and leaves the paging state alone otherwise. -/
theorem serve_grows {e : Event} (h : serve L s e.1 = some (e.2, s')) :
    SameMaps (extendLoop L (e.1.pages s) s).2 s' := by
  obtain ⟨req, q⟩ := e
  cases req with
  | kmalloc n => exact kmalloc_grows h
  | kcalloc k n => exact kcalloc_grows h
  | krealloc p n => exact krealloc_grows h
  | kfree p =>
    obtain ⟨-, rfl⟩ := Prod.mk.inj (Option.some.inj h)
    exact kfree_sameMaps s p
  | write x v =>
    obtain ⟨-, rfl⟩ := Prod.mk.inj (Option.some.inj h)
    exact ⟨_, rfl⟩

/-! Growth by no page, and growth past the limit. -/

/-- Other pages mapped, and the same bytes. -/
def remapped (pg : Paging) (ph me : U32) (s : State) : State :=
  { s with paging := pg, gNextFreePhys := ph, gHeapMappedEnd := me }

section remapped
variable {pg : Paging} {ph me r : U32}

/-- A growth by no page does not depend on the pages mapped. -/
theorem extendHeapToFit_remapped {tail : U32} (hhead : s.gHeapHead ≠ nullptr)
    (hlast : lastBlock s = some tail)
    (hpages : tail = nullptr ∨ (load s.mem tail).free ≠ 0 ∧ r ≤ (load s.mem tail).size ∨
      pagesNeeded (load s.mem tail) r = 0) :
    extendHeapToFit L (remapped pg ph me s) r =
      (extendHeapToFit L s r).map (Prod.map id (remapped pg ph me)) := by
  have hhead' : (remapped pg ph me s).gHeapHead ≠ nullptr := hhead
  have hlast' : lastBlock (remapped pg ph me s) = some tail := hlast
  have hmem : (remapped pg ph me s).mem = s.mem := rfl
  simp only [extendHeapToFit, if_neg hhead, if_neg hhead', hlast, hlast', hmem,
    Option.bind_eq_bind, Option.bind_some]
  by_cases hnull : tail = nullptr
  · rw [if_pos hnull, if_pos hnull]
    rfl
  rw [if_neg hnull, if_neg hnull]
  by_cases hfit : (load s.mem tail).free ≠ 0 ∧ r ≤ (load s.mem tail).size
  · rw [if_pos hfit, if_pos hfit]
    rfl
  · rw [if_neg hfit, if_neg hfit, (hpages.resolve_left hnull).resolve_left hfit]
    rfl

theorem kmalloc_remapped (hpages : kmallocPages s size = 0) : kmalloc L (remapped pg ph me s) size =
    (kmalloc L s size).map (Prod.map id (remapped pg ph me)) := by
  unfold kmallocPages at hpages
  dsimp only at hpages
  unfold kmalloc
  by_cases hstart : size = 0 ∨ s.gHeapHead = nullptr
  · have hstart' : size = 0 ∨ (remapped pg ph me s).gHeapHead = nullptr := hstart
    rw [if_pos hstart, if_pos hstart']
    rfl
  have hstart' : ¬ (size = 0 ∨ (remapped pg ph me s).gHeapHead = nullptr) := hstart
  rw [if_neg hstart, if_neg hstart']
  obtain ⟨hsize, hhead⟩ := not_or.mp hstart
  dsimp only
  generalize alignUp size allocAlign = r at *
  have hfind' : findFreeBlock (remapped pg ph me s) r = findFreeBlock s r := rfl
  rw [hfind']
  cases hfind : findFreeBlock s r with
  | none => rfl
  | some block =>
    simp only [Option.bind_eq_bind, Option.bind_some]
    by_cases hblock : block = nullptr
    · subst hblock
      have hno : ¬ (size = 0 ∨ s.gHeapHead = nullptr ∨ findFreeBlock s r ≠ some nullptr) :=
        not_or.mpr ⟨hsize, not_or.mpr ⟨hhead, not_not.mpr hfind⟩⟩
      rw [if_neg hno] at hpages
      simp only [ne_eq, not_true_eq_false, if_false]
      cases hlast : lastBlock s with
      | none =>
        have hlast' : lastBlock (remapped pg ph me s) = none := hlast
        have hhead' : (remapped pg ph me s).gHeapHead ≠ nullptr := hhead
        simp [extendHeapToFit, hhead, hhead', hlast, hlast']
      | some tail =>
        simp only [hlast] at hpages
        rw [extendHeapToFit_remapped hhead hlast]
        · cases extendHeapToFit L s r with
          | none => rfl
          | some x =>
            obtain ⟨ok, s₁⟩ := x
            have hagain : findFreeBlock (remapped pg ph me s₁) r = findFreeBlock s₁ r := rfl
            simp only [Option.map_some, Option.bind_some, Prod.map, id, hagain]
            cases ok with
            | false => rfl
            | true =>
              simp only [Bool.not_true, Bool.false_eq_true, if_false]
              cases findFreeBlock s₁ r with
              | none => rfl
              | some found =>
                simp only [Option.bind_some]
                split
                · rfl
                · rfl
        · split at hpages
          · rename_i hnone
            exact hnone.imp_right .inl
          · exact .inr (.inr (BitVec.eq_of_toNat_eq hpages))
    · simp only [hblock, ne_eq, not_false_eq_true, if_true]
      rfl

end remapped

/-- A request too large for the heap leaves its pages mapped, and its bytes as they were. -/
theorem kmalloc_spent {tail : U32} (hsize : size ≠ 0) (hhead : s.gHeapHead ≠ nullptr)
    (hfind : findFreeBlock s (alignUp size allocAlign) = some nullptr)
    (hlast : lastBlock s = some tail) (htail : tail ≠ nullptr) (hused : (load s.mem tail).free = 0)
    (hpage : s.gHeapMappedEnd.toNat % 4096 = 0) (hlimit : s.gHeapMappedEnd.toNat ≤ 2 ^ 26)
    (hfull : 2 ^ 26 < s.gHeapMappedEnd.toNat +
      4096 * (pagesNeeded (load s.mem tail) (alignUp size allocAlign)).toNat) :
    ∃ pg ph me, kmalloc L s size = some (nullptr, remapped pg ph me s) := by
  obtain ⟨pg, ph, me, hrun, -⟩ := extendLoop_spec L
    (pagesNeeded (load s.mem tail) (alignUp size allocAlign)).toNat s hpage hlimit
  refine ⟨pg, ph, me, ?_⟩
  have hext : extendHeapToFit L s (alignUp size allocAlign) =
      some (false, remapped pg ph me s) := by
    simp only [extendHeapToFit, if_neg hhead, hlast, if_neg htail, hused, Option.bind_eq_bind,
      Option.bind_some, ne_eq, not_true_eq_false, false_and, if_false, hrun,
      decide_eq_false (Nat.not_le.mpr hfull)]
    rfl
  exact kmalloc_limit (not_or.mpr ⟨hsize, hhead⟩) hfind hext

end Kernix.Proofs
