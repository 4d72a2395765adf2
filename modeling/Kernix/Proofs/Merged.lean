import Mathlib.Data.List.Chain
import Kernix.Proofs.Payloads

namespace Kernix.Proofs
open Library Memory

variable {bs pre post cs : List Block} {b c p t : Block} {r added q : U32} {h : Heap}

theorem merged_nil : Merged [] := .nil

theorem merged_singleton (b : Block) : Merged [b] := .singleton b

theorem firstUsed_cons : FirstUsed (b :: bs) ↔ b.free = false := by simp [FirstUsed]

theorem lastUsed_append : LastUsed (bs ++ [b]) ↔ b.free = false := by simp [LastUsed]

theorem merged_cons : Merged (b :: bs) ↔ Merged bs ∧ (b.free = true → FirstUsed bs) := by
  rw [Merged, List.isChain_cons, and_comm]
  apply and_congr_right
  intro _
  cases hb : b.free <;> simp [FirstUsed]

/-- A block in the middle: free, it needs a used block, or none, on either side. -/
theorem merged_zipper : Merged (pre ++ b :: post) ↔
    Merged pre ∧ Merged post ∧ (b.free = true → LastUsed pre ∧ FirstUsed post) := by
  have hlast : (∀ x ∈ pre.getLast?, ∀ y ∈ (b :: post).head?, ¬ (x.free = true ∧ y.free = true)) ↔
      (b.free = true → LastUsed pre) := by
    cases hb : b.free <;> simp [LastUsed, hb]
  rw [Merged, List.isChain_append, hlast]
  change Merged pre ∧ Merged (b :: post) ∧ _ ↔ _
  rw [merged_cons]
  constructor
  · rintro ⟨hpre, ⟨hpost, hfirst⟩, hlast⟩
    exact ⟨hpre, hpost, fun hb => ⟨hlast hb, hfirst hb⟩⟩
  · rintro ⟨hpre, hpost, hb⟩
    exact ⟨hpre, ⟨hpost, fun h => (hb h).2⟩, fun h => (hb h).1⟩

/-- A used block separates what is before it from what is after. -/
theorem merged_used (hb : b.free = false) : Merged (pre ++ b :: post) ↔ Merged pre ∧ Merged post := by
  rw [merged_zipper, hb]
  simp

theorem merged_free (hb : b.free = true) : Merged (pre ++ b :: post) ↔
    Merged pre ∧ Merged post ∧ LastUsed pre ∧ FirstUsed post := by
  rw [merged_zipper, hb]
  simp

/-! What the operations keep. -/

/-- The rest of a used block that is cut is free: it needs a used block after it. -/
theorem merged_cut (hb : b.free = false) (hpre : Merged pre) (hpost : Merged post) (r : U32) :
    Merged (pre ++ cut r b ++ post) ↔ (r.toNat + 32 ≤ b.size.toNat → FirstUsed post) := by
  by_cases hcut : b.size.toNat < r.toNat + 32
  · rw [cut_whole hcut, List.append_assoc, List.singleton_append, merged_used hb]
    exact iff_of_true ⟨hpre, hpost⟩ fun hle => absurd hcut (Nat.not_lt.mpr hle)
  · have hle := Nat.not_lt.mp hcut
    rw [cut_two hle, List.append_assoc, List.cons_append, merged_used (by exact hb),
      List.singleton_append, merged_cons]
    constructor
    · exact fun hm _ => hm.2.2 rfl
    · exact fun hfirst => ⟨hpre, hpost, fun _ => hfirst hle⟩

theorem merged_carve (hb : b.free = true) (hm : Merged (pre ++ b :: post)) (r : U32) :
    Merged (pre ++ carve r b ++ post) := by
  obtain ⟨hpre, hpost, -, hfirst⟩ := (merged_free hb).mp hm
  exact (merged_cut (b := { b with free := false }) rfl hpre hpost r).mpr fun _ => hfirst

theorem merged_allocate (hm : Merged bs) {bs' : List Block} (ha : allocate r bs = some (q, bs')) :
    Merged bs' := by
  obtain ⟨pre, b, post, rfl, -, hb, -, rfl⟩ := allocate_eq_some.mp ha
  have hb : b.free = true ∧ r ≤ b.size := by simpa [fits] using hb
  exact merged_carve hb.1 hm r

theorem merged_enlarge (hm : Merged bs) (added : U32) : Merged (enlarge added bs) := by
  rcases List.eq_nil_or_concat' bs with rfl | ⟨pre, t, rfl⟩
  · exact hm
  rw [enlarge_append]
  cases ht : t.free with
  | true =>
    obtain ⟨hpre, -, hlast, -⟩ := (merged_free ht).mp hm
    rw [enlarge_free ht, merged_free (by exact ht)]
    exact ⟨hpre, merged_nil, hlast, by simp [FirstUsed]⟩
  | false =>
    rw [enlarge_used ht, merged_used ht]
    exact ⟨((merged_used ht).mp hm).1, merged_singleton _⟩

theorem merged_malloc (hm : Merged h.blocks) (r : U32) : Merged (malloc r h).2.blocks := by
  unfold malloc
  split
  · rename_i q bs ha
    exact merged_allocate hm ha
  · dsimp only
    split
    · split
      · rename_i q bs ha
        exact merged_allocate (merged_enlarge hm _) ha
      · exact merged_enlarge hm _
    · exact hm

/-- A block that takes in the one after it is followed by a used one. -/
theorem mergeNext_merged (hb : b.free = true) (hm : Merged post) :
    ∃ c rest, mergeNext b post = c :: rest ∧ c.free = true ∧ Merged rest ∧ FirstUsed rest := by
  cases post with
  | nil => exact ⟨b, [], rfl, hb, merged_nil, by simp [FirstUsed]⟩
  | cons n post =>
    cases hn : n.free with
    | true =>
      obtain ⟨hpost, hfirst⟩ := merged_cons.mp hm
      exact ⟨_, post, mergeNext_free hn, hb, hpost, hfirst hn⟩
    | false => exact ⟨b, n :: post, mergeNext_used hn, hb, hm, firstUsed_cons.mpr hn⟩

theorem merged_release (hb : b.free = false) (hm : Merged (pre ++ b :: post)) :
    Merged (release pre b post) := by
  obtain ⟨hpre, hpost⟩ := (merged_used hb).mp hm
  obtain ⟨c, rest, hc, hcfree, hrest, hfirst⟩ :=
    mergeNext_merged (b := { b with free := true }) rfl hpost
  rw [release, hc]
  rcases List.eq_nil_or_concat' pre with rfl | ⟨pre, p, rfl⟩
  · exact merged_cons.mpr ⟨hrest, fun _ => hfirst⟩
  rw [mergeLast_append, mergeLast]
  cases hp : p.free with
  | true =>
    obtain ⟨hpre, -, hlast, -⟩ := (merged_free hp).mp hpre
    rw [if_pos rfl, mergeNext_free hcfree, merged_free (by exact hp)]
    exact ⟨hpre, hrest, hlast, hfirst⟩
  | false =>
    rw [if_neg (by simp), merged_used hp, merged_cons]
    exact ⟨((merged_used hp).mp hpre).1, hrest, fun _ => hfirst⟩

theorem merged_freeAt (hm : Merged bs) {lo : Nat} (hp : Placed lo bs) (hb : b ∈ used bs) :
    Merged (freeAt b.payload bs) := by
  obtain ⟨hmem, hfree⟩ := mem_used.mp hb
  obtain ⟨pre, post, rfl⟩ := List.append_of_mem hmem
  rw [hp.freeAt hfree]
  exact merged_release hfree hm

/-- Nothing handed out: the free blocks are one. -/
theorem merged_all_free (hm : Merged bs) (hne : bs ≠ []) (hu : used bs = []) :
    ∃ b, bs = [b] ∧ b.free = true := by
  have hfree : ∀ b ∈ bs, b.free = true := by
    simpa [used] using hu
  cases bs with
  | nil => exact absurd rfl hne
  | cons b bs =>
    obtain ⟨-, hfirst⟩ := merged_cons.mp hm
    have hfirst := hfirst (hfree b (by simp))
    cases bs with
    | nil => exact ⟨b, rfl, hfree b (by simp)⟩
    | cons c bs =>
      have := firstUsed_cons.mp hfirst
      rw [hfree c (by simp)] at this
      exact absurd this (by decide)

end Kernix.Proofs
