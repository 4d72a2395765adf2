import Kernix.Proofs.Delivery

namespace Kernix.Proofs
open Library Keyboard Interrupts Board

variable {σ : Type} {sys : σ → KeyEvent → σ → Prop} {halted : σ → Bool} {b b₁ b' : Board σ}
  {d : Devices} {n : Nat} {e : BoardEvent} {es : List BoardEvent} {k₀ : σ} {codes : List Byte}

/-! A scancode on its way from the keyboard to the driver. -/

def atInb : Doing → Bool
  | .irq1 .inb => true
  | _ => false

/-- The second line of the first controller has a request. -/
def keyWaits (b : Board σ) : Bool := b.devices.pics.master.irr.getLsbD 1

/-- What a step means for a scancode on its way. -/
inductive KeyMove (sys : σ → KeyEvent → σ → Prop) (b : Board σ) (e : BoardEvent) (b' : Board σ) : Prop
  | stays (he : e.key? = none) (hk : b'.kernel = b.kernel) (hkeys : b'.devices.keys = b.devices.keys)
      (hirr : keyWaits b' = keyWaits b) (hinb : atInb b'.doing = atInb b.doing)
      (hhand : inHand b' = inHand b)
  | sent {c : Byte} (he : e = .key c) (hk : b'.kernel = b.kernel) (hfull : b.devices.keys.full = false)
      (hkeys : b'.devices.keys = ⟨c, true⟩) (hirr : keyWaits b' = true) (hdoing : b'.doing = b.doing)
  | accepted (he : e.key? = none) (hk : b'.kernel = b.kernel)
      (hkeys : b'.devices.keys = b.devices.keys) (hirr : keyWaits b = true)
      (hirr' : keyWaits b' = false) (hdoing : b.doing = .main) (hdoing' : b'.doing = .irq1 .inb)
  | read (he : e.key? = none) (hk : b'.kernel = b.kernel)
      (hkeys : b'.devices.keys = { b.devices.keys with full := false })
      (hirr : keyWaits b' = keyWaits b) (hdoing : b.doing = .irq1 .inb)
      (hdoing' : b'.doing = .irq1 (.handle b.devices.keys.data))
  | handed {c : Byte} (he : e.key? = none) (hk : sys b.kernel (.interrupt c) b'.kernel)
      (hkeys : b'.devices.keys = b.devices.keys) (hirr : keyWaits b' = keyWaits b)
      (hdoing : b.doing = .irq1 (.handle c)) (hdoing' : b'.doing = .irq1 .eoi)
  | other {ke : KeyEvent} (he : e.key? = none) (hke : ke.scancode? = none)
      (hk : sys b.kernel ke b'.kernel) (hkeys : b'.devices.keys = b.devices.keys)
      (hirr : keyWaits b' = keyWaits b) (hdoing : b'.doing = b.doing)

theorem edge_keyWaits (d : Devices) {line : Fin 16} (h : line.val ≠ 1) :
    (d.edge line).pics.master.irr.getLsbD 1 = d.pics.master.irr.getLsbD 1 := by
  have hedge := edge_irr d line 1
  rwa [Fin.val_one, decide_eq_false h, Bool.or_false] at hedge

theorem keyed_keyWaits (d : Devices) (c : Byte) :
    (d.keyed c).pics.master.irr.getLsbD 1 = true := by
  have hedge := edge_irr { d with keys := ⟨c, true⟩ } 1 1
  exact hedge.trans (Bool.or_true _)

theorem Live.keyMove (h : Live d 1 b) (hs : Step sys halted b e b') : KeyMove sys b e b' := by
  cases hs with
  | tick => exact .stays rfl rfl rfl (edge_keyWaits b.devices (by decide)) rfl rfl
  | missedTick => exact .stays rfl rfl rfl rfl rfl rfl
  | edge hline => exact .stays rfl rfl rfl (edge_keyWaits b.devices (by omega)) rfl rfl
  | key hfull => exact .sent rfl rfl hfull rfl (keyed_keyWaits _ _) rfl
  | accept hflag ha =>
    rcases h with h | h
    · rw [h.flag] at hflag
      cases hflag
    obtain ⟨hmain, -, -⟩ := h.interruptible hflag
    rcases h.accept_cases hflag ha with ⟨henter, -, hserved⟩ | ⟨henter, -, hirr, hserved⟩
    · refine .stays rfl rfl rfl ?_ ?_ ?_
      · exact (hserved.irr 1 (by decide)).trans (Bool.and_true _)
      · rw [henter, hmain]
        rfl
      · rw [inHand, inHand, henter, hmain]
    · exact .accepted rfl rfl rfl hirr ((hserved.irr 1 (by decide)).trans (Bool.and_false _)) hmain
        henter
  | write hd =>
    rcases h with h | h
    · have hirr := outb_irr (d := b.devices) (h.later hd)
      refine .stays rfl rfl (hirr _).2 ?_ (by rw [hd]; rfl) ?_
      · rw [keyWaits, (hirr _).1, keyWaits]
      · rw [inHand, inHand, hd]
    · exact absurd hd (h.not_init _)
  | enable hd =>
    refine .stays rfl rfl rfl rfl (by rw [hd]; rfl) ?_
    rw [inHand, inHand, hd]
  | main hd he hk => exact .other rfl he hk rfl rfl rfl
  | count hd =>
    refine .stays rfl rfl rfl rfl (by rw [hd]; rfl) ?_
    rw [inHand, inHand, hd]
  | eoi0 hd =>
    rcases h with h | h
    · obtain ⟨_, _, -, hdoing, -⟩ := h.writes
      rw [hdoing] at hd
      cases hd
    have heoi := h.eoi_same (i := 0) (by rw [hd]; rfl)
    refine .stays rfl rfl ?_ ?_ (by rw [hd]; rfl) ?_
    · rw [heoi]
    · rw [keyWaits, heoi, keyWaits]
    · rw [inHand, inHand, hd]
  | ret0 hd hcame =>
    rcases h with h | h
    · rw [h.interrupted] at hcame
      cases hcame
    obtain ⟨rfl, -⟩ := h.return_main hcame
    refine .stays rfl rfl rfl rfl (by rw [hd]; rfl) ?_
    rw [inHand, inHand, hd]
    rfl
  | inb hd => exact .read rfl rfl rfl rfl hd rfl
  | handle hd hk => exact .handed rfl hk rfl rfl hd rfl
  | eoi1 hd =>
    rcases h with h | h
    · obtain ⟨_, _, -, hdoing, -⟩ := h.writes
      rw [hdoing] at hd
      cases hd
    have heoi := h.eoi_same (i := 1) (by rw [hd]; rfl)
    refine .stays rfl rfl ?_ ?_ (by rw [hd]; rfl) ?_
    · rw [heoi]
    · rw [keyWaits, heoi, keyWaits]
    · rw [inHand, inHand, hd]
  | ret1 hd hcame =>
    rcases h with h | h
    · rw [h.interrupted] at hcame
      cases hcame
    obtain ⟨rfl, -⟩ := h.return_main hcame
    refine .stays rfl rfl rfl rfl (by rw [hd]; rfl) ?_
    rw [inHand, inHand, hd]
    rfl

/-- The kernel has been handed the scancodes `codes` but those still on their way. The controller
holds one exactly where its line waits or the handler is about to read it. -/
structure KeysServed (sys : σ → KeyEvent → σ → Prop) (k₀ : σ) (b : Board σ) (codes : List Byte) :
    Prop where
  kernel : ∃ ks, Run sys k₀ ks b.kernel ∧ codes = scancodes ks ++ inHand b ++ unread b
  full : b.devices.keys.full = (keyWaits b || atInb b.doing)
  once : atInb b.doing = true → keyWaits b = false

theorem scancodes_other (ks : List KeyEvent) {ke : KeyEvent} (h : ke.scancode? = none) :
    scancodes (ks ++ [ke]) = scancodes ks := by
  simp [scancodes, h]

theorem scancodes_interrupt (ks : List KeyEvent) (c : Byte) :
    scancodes (ks ++ [.interrupt c]) = scancodes ks ++ [c] := by
  simp [scancodes, KeyEvent.scancode?]

theorem KeysServed.move (h : KeysServed sys k₀ b codes) (hm : KeyMove sys b e b') :
    KeysServed sys k₀ b' (codes ++ e.key?.toList) := by
  obtain ⟨ks, hrun, hcodes⟩ := h.kernel
  cases hm with
  | stays he hk hkeys hirr hinb hhand =>
    refine ⟨⟨ks, hk ▸ hrun, ?_⟩, ?_, ?_⟩
    · rw [he, hhand, unread, hkeys, ← unread, hcodes]
      exact List.append_nil _
    · rw [hkeys, hirr, hinb]
      exact h.full
    · rw [hirr, hinb]
      exact h.once
  | @sent c he hk hfull hkeys hirr hdoing =>
    have hfull' := h.full
    rw [hfull] at hfull'
    have hinb : atInb b.doing = false := (Bool.or_eq_false_iff.mp hfull'.symm).2
    refine ⟨⟨ks, hk ▸ hrun, ?_⟩, ?_, ?_⟩
    · have hnone : unread b = [] := by simp [unread, hfull]
      have hhand : inHand b' = inHand b := by rw [inHand, hdoing, ← inHand]
      rw [he, hcodes, hnone, hhand, unread, hkeys, List.append_nil]
      rfl
    · rw [hkeys, hirr]
      rfl
    · rw [hdoing, hinb]
      exact nofun
  | accepted he hk hkeys hirr hirr' hdoing hdoing' =>
    refine ⟨⟨ks, hk ▸ hrun, ?_⟩, ?_, fun _ => hirr'⟩
    · have hhand : inHand b' = inHand b := by rw [inHand, inHand, hdoing, hdoing']
      rw [he, hhand, unread, hkeys, ← unread, hcodes]
      exact List.append_nil _
    · rw [hkeys, h.full, hirr, hirr', hdoing']
      rfl
  | read he hk hkeys hirr hdoing hdoing' =>
    have hwaits : keyWaits b = false := h.once (by rw [hdoing]; rfl)
    have hfull : b.devices.keys.full = true := by rw [h.full, hdoing, hwaits]; rfl
    refine ⟨⟨ks, hk ▸ hrun, ?_⟩, ?_, ?_⟩
    · have hhand : inHand b = [] := by rw [inHand, hdoing]
      have hhand' : inHand b' = [b.devices.keys.data] := by rw [inHand, hdoing']
      have hnone : unread b' = [] := by rw [unread, hkeys]; rfl
      rw [he, hcodes, hhand, hhand', hnone, unread, hfull]
      simp
    · rw [hkeys, hirr, hwaits, hdoing']
      rfl
    · rw [hdoing']
      exact nofun
  | @handed c he hk hkeys hirr hdoing hdoing' =>
    refine ⟨⟨ks ++ [.interrupt c], hrun.snoc hk, ?_⟩, ?_, ?_⟩
    · have hhand : inHand b = [c] := by rw [inHand, hdoing]
      have hhand' : inHand b' = [] := by rw [inHand, hdoing']
      rw [he, hhand', unread, hkeys, ← unread, hcodes, hhand, scancodes_interrupt]
      simp
    · rw [hkeys, hirr, h.full, hdoing, hdoing']
      rfl
    · rw [hdoing']
      exact nofun
  | @other ke he hke hk hkeys hirr hdoing =>
    refine ⟨⟨ks ++ [ke], hrun.snoc hk, ?_⟩, ?_, ?_⟩
    · have hhand : inHand b' = inHand b := by rw [inHand, hdoing, ← inHand]
      rw [he, hhand, unread, hkeys, ← unread, hcodes, scancodes_other ks hke]
      exact List.append_nil _
    · rw [hkeys, hirr, hdoing]
      exact h.full
    · rw [hirr, hdoing]
      exact h.once

theorem sent_snoc (es : List BoardEvent) (e : BoardEvent) :
    sent (es ++ [e]) = sent es ++ e.key?.toList := by
  cases h : e.key? with
  | none => simp [sent, h]
  | some c => simp [sent, h]

theorem KeysServed.run (h : KeysServed sys k₀ b codes) (hlive : Live d 1 b)
    (hrun : Run (Step sys halted) b es b') : KeysServed sys k₀ b' (codes ++ sent es) := by
  induction hrun with
  | nil => exact (List.append_nil codes).symm ▸ h
  | snoc hrun hs ih =>
    rw [sent_snoc, ← List.append_assoc]
    exact ih.move ((hlive.run hrun).keyMove hs)

theorem Reset.keysServed (h : Reset b b₁) (hempty : b.devices.keys.full = false) :
    KeysServed sys b.kernel b₁ [] := by
  obtain ⟨_, _, -, hdoing, -⟩ := h.booting.writes
  have hfull : b₁.devices.keys.full = false := by rw [h.keys, hempty]
  have hwaits : keyWaits b₁ = false := by rw [keyWaits, h.irr]; rfl
  refine ⟨⟨[], h.kernel ▸ .nil, ?_⟩, ?_, ?_⟩
  · rw [inHand, hdoing, unread, hfull]
    rfl
  · rw [hfull, hwaits, hdoing]
    rfl
  · rw [hdoing]
    exact nofun

/-- In every interleaving the driver is handed the scancodes that the keyboard sends, each one once
and in their order; at most the last is still on its way. -/
theorem scancodes_reach_driver (h : AtReset b) (hempty : b.devices.keys.full = false)
    (hs : Step sys halted b .cpu b₁) (hrun : Run (Step sys halted) b₁ es b') :
    ∃ ks, Run sys b.kernel ks b'.kernel ∧ sent es = scancodes ks ++ inHand b' ++ unread b' := by
  have hreset := h.first hs
  exact ((hreset.keysServed hempty).run (.inl hreset.booting) hrun).kernel

/-! A scancode that was in the controller before its line was reset. -/

/-- The controller is full, and neither its line nor the handler is about to have it read. -/
structure KeysStuck (b : Board σ) : Prop where
  full : b.devices.keys.full = true
  irr : keyWaits b = false
  atInb : atInb b.doing = false
  inHand : inHand b = []

theorem KeysStuck.move (h : KeysStuck b) (hm : KeyMove sys b e b') :
    KeysStuck b' ∧ b'.devices.keys = b.devices.keys ∧ e.key? = none ∧
      (b'.kernel = b.kernel ∨ ∃ ke, ke.scancode? = none ∧ sys b.kernel ke b'.kernel) := by
  cases hm with
  | stays he hk hkeys hirr hinb hhand =>
    exact ⟨⟨by rw [hkeys, h.full], by rw [hirr, h.irr], by rw [hinb, h.atInb],
      by rw [hhand, h.inHand]⟩, hkeys, he, .inl hk⟩
  | sent he hk hfull => rw [h.full] at hfull; cases hfull
  | accepted he hk hkeys hirr => rw [h.irr] at hirr; cases hirr
  | read he hk hkeys hirr hdoing =>
    have hinb := h.atInb
    rw [hdoing] at hinb
    cases hinb
  | handed he hk hkeys hirr hdoing =>
    have hhand := h.inHand
    rw [Board.inHand, hdoing] at hhand
    cases hhand
  | other he hke hk hkeys hirr hdoing =>
    exact ⟨⟨by rw [hkeys, h.full], by rw [hirr, h.irr], by rw [hdoing, h.atInb],
      by rw [Board.inHand, hdoing, ← Board.inHand, h.inHand]⟩, hkeys, he, .inr ⟨_, hke, hk⟩⟩

theorem KeysStuck.run (h : KeysStuck b) (hlive : Live d 1 b) (hrun : Run (Step sys halted) b es b') :
    KeysStuck b' ∧ b'.devices.keys = b.devices.keys ∧ sent es = [] ∧
      ∃ ks, Run sys b.kernel ks b'.kernel ∧ scancodes ks = [] := by
  induction hrun with
  | nil => exact ⟨h, rfl, rfl, [], .nil, rfl⟩
  | snoc hrun hs ih =>
    obtain ⟨hstuck, hkeys, hsent, ks, hks, hcodes⟩ := ih
    obtain ⟨hstuck', hkeys', he, hk⟩ := hstuck.move ((hlive.run hrun).keyMove hs)
    refine ⟨hstuck', hkeys'.trans hkeys, by rw [sent_snoc, he, hsent]; rfl, ?_⟩
    rcases hk with hk | ⟨ke, hke, hk⟩
    · exact ⟨ks, hk ▸ hks, hcodes⟩
    · exact ⟨ks ++ [ke], hks.snoc hk, (scancodes_other ks hke).trans hcodes⟩

theorem Reset.keysStuck (h : Reset b b₁) (hfull : b.devices.keys.full = true) : KeysStuck b₁ := by
  obtain ⟨_, _, -, hdoing, -⟩ := h.booting.writes
  refine ⟨by rw [h.keys, hfull], by rw [keyWaits, h.irr]; rfl, by rw [hdoing]; rfl, ?_⟩
  rw [inHand, hdoing]

end Kernix.Proofs
