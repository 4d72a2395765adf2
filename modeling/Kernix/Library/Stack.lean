import Kernix.Library.Memory

namespace Library
namespace Mem

/-- The words from `a` on are `ws`. -/
def Words (m : Mem) (a : U32) : List U32 → Prop
  | [] => True
  | w :: ws => m.read32 a = w ∧ Words m (a + 4) ws

variable {m m' : Mem} {a sp v x : U32} {ws vs : List U32}

theorem Words.congr (hw : m.Words a ws) (hlen : 4 * ws.length ≤ 2 ^ 32)
    (h : ∀ x, (x - a).toNat < 4 * ws.length → m' x = m x) : m'.Words a ws := by
  induction ws generalizing a with
  | nil => trivial
  | cons w ws ih =>
    rw [List.length_cons] at hlen h
    refine ⟨?_, ih hw.2 (by omega) fun x hx => h x (by bv_omega)⟩
    rw [← hw.1]
    exact read32_congr fun x hx => h x (by omega)

theorem words_append (hlen : 4 * (ws.length + vs.length) ≤ 2 ^ 32) : m.Words a (ws ++ vs) ↔
    m.Words a ws ∧ m.Words (a + BitVec.ofNat 32 (4 * ws.length)) vs := by
  induction ws generalizing a with
  | nil => simp [Words]
  | cons w ws ih =>
    rw [List.length_cons] at hlen
    have hnext : a + 4 + BitVec.ofNat 32 (4 * ws.length) =
        a + BitVec.ofNat 32 (4 * (w :: ws).length) := by
      rw [List.length_cons]
      bv_omega
    rw [List.cons_append, Words, Words, ih (by omega), hnext, and_assoc]

theorem Words.get (hw : m.Words a ws) {i : Nat} (hi : i < ws.length) :
    m.read32 (a + BitVec.ofNat 32 (4 * i)) = ws[i] := by
  induction ws generalizing a i with
  | nil => exact absurd hi (Nat.not_lt_zero i)
  | cons w ws ih =>
    cases i with
    | zero => simpa using hw.1
    | succ i =>
      have hnext : a + BitVec.ofNat 32 (4 * (i + 1)) = a + 4 + BitVec.ofNat 32 (4 * i) := by
        bv_omega
      rw [hnext]
      exact ih hw.2 (by simpa using hi)

/-- Words pushed one after the other on a stack that grows down from `sp`. -/
def pushWords (m : Mem) (sp : U32) : List U32 → Mem
  | [] => m
  | w :: ws => pushWords (m.write32 (sp - 4) w) (sp - 4) ws

theorem words_push (hw : m.Words sp ws) (hlen : 4 * ws.length + 4 ≤ 2 ^ 32) (v : U32) :
    (m.write32 (sp - 4) v).Words (sp - 4) (v :: ws) := by
  refine ⟨read32_write32_same .., ?_⟩
  rw [BitVec.sub_add_cancel]
  refine hw.congr (by omega) fun x hx => write32_outside ?_
  bv_omega

/-- What was pushed lies on the stack, last word first. -/
theorem words_pushWords (hw : m.Words sp ws) (vs : List U32)
    (hlen : 4 * (ws.length + vs.length) ≤ 2 ^ 32) :
    (m.pushWords sp vs).Words (sp - BitVec.ofNat 32 (4 * vs.length)) (vs.reverse ++ ws) := by
  induction vs generalizing m sp ws with
  | nil => simpa [pushWords] using hw
  | cons v vs ih =>
    rw [List.length_cons] at hlen
    have hsp : sp - BitVec.ofNat 32 (4 * (v :: vs).length) =
        sp - 4 - BitVec.ofNat 32 (4 * vs.length) := by
      rw [List.length_cons]
      bv_omega
    have hnext := ih (words_push hw (by omega) v) (by rw [List.length_cons]; omega)
    rw [pushWords, hsp, List.reverse_cons, List.append_assoc]
    exact hnext

/-- A push writes below the stack pointer only. -/
theorem pushWords_outside (hlen : 4 * vs.length ≤ 2 ^ 32)
    (hx : 4 * vs.length ≤ (x - (sp - BitVec.ofNat 32 (4 * vs.length))).toNat) :
    m.pushWords sp vs x = m x := by
  induction vs generalizing m sp with
  | nil => rfl
  | cons v vs ih =>
    rw [List.length_cons] at hlen hx
    rw [pushWords, ih (by omega) (by bv_omega), write32_outside (by bv_omega)]

end Mem
end Library
