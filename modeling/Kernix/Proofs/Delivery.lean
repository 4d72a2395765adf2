import Kernix.Interrupts.Board
import Kernix.Proofs.Controllers

namespace Kernix.Proofs
open Library Keyboard Interrupts Board

variable {σ : Type} {sys : σ → KeyEvent → σ → Prop} {halted : σ → Bool} {b b' : Board σ}
  {d : Devices} {n : Nat} {e : BoardEvent} {es : List BoardEvent} {k₀ : σ} {codes : List Byte}

/-! What the machine is at, in every interleaving with the devices. -/

/-- The machine before the first write of `pic_remap`, whatever state the devices are in. The
interrupts are off. -/
structure AtReset (b : Board σ) : Prop where
  doing : ∃ ws, initWrites b.devices.pics.slave.imr = some ws ∧ b.doing = .init ws
  flag : b.interruptFlag = false
  interrupted : b.interrupted = []

/-- The bit of the line in service. -/
def inService : Doing → Byte
  | .irq0 .count => 1
  | .irq0 .eoi => 1
  | .irq1 .inb => 2
  | .irq1 (.handle _) => 2
  | .irq1 .eoi => 2
  | _ => 0

/-- The machine after `interrupts_init`: the kernel's own code, or one handler that it comes back
from, with the line of that handler in service until its end of interrupt. -/
structure Serving (b : Board σ) : Prop where
  ready : Ready b.devices.pics.master
  pit : b.devices.pit = ⟨3, 3, none, 11931⟩
  isr : b.devices.pics.master.isr = inService b.doing
  nests : (b.doing = .main ∧ b.interrupted = []) ∨
    (b.interruptFlag = false ∧ b.interrupted = [(.main, true)] ∧
      ((∃ i, b.doing = .irq0 i) ∨ ∃ i, b.doing = .irq1 i))

/-- `interrupts_init` has made `n` of its writes or more, the first of them on the devices `d`. -/
structure Booting (d : Devices) (n : Nat) (b : Board σ) : Prop where
  writes : ∃ made ws, initWrites d.pics.slave.imr = some (made ++ ws) ∧ b.doing = .init ws ∧
    n ≤ made.length ∧ settled b.devices = settled (outs d made)
  flag : b.interruptFlag = false
  interrupted : b.interrupted = []

def Live (d : Devices) (n : Nat) (b : Board σ) : Prop := Booting d n b ∨ Serving b

theorem AtReset.booting (h : AtReset b) : Booting b.devices 0 b := by
  obtain ⟨ws, hws, hdoing⟩ := h.doing
  exact ⟨⟨[], ws, hws, hdoing, Nat.le_refl 0, rfl⟩, h.flag, h.interrupted⟩

/-- A change that leaves the devices settled as they were. -/
theorem Booting.devices (h : Booting d n b) {d' : Devices} (hd : settled d' = settled b.devices) :
    Booting d n { b with devices := d' } := by
  obtain ⟨made, ws, hws, hdoing, hn, hsettled⟩ := h.writes
  exact ⟨⟨made, ws, hws, hdoing, hn, hd.trans hsettled⟩, h.flag, h.interrupted⟩

theorem Booting.write (h : Booting d n b) {port : Port} {value : Byte} {ws : List PortWrite}
    (hdoing : b.doing = .init ((port, value) :: ws)) :
    Booting d (n + 1) { b with devices := b.devices.outb port value, doing := .init ws } := by
  obtain ⟨made, ws', hws, hdoing', hn, hsettled⟩ := h.writes
  have hsame : ws' = (port, value) :: ws := by
    rw [hdoing] at hdoing'
    exact (Doing.init.inj hdoing').symm
  subst hsame
  refine ⟨⟨made ++ [(port, value)], ws, ?_, rfl, ?_, ?_⟩, h.flag, h.interrupted⟩
  · rw [hws, List.append_assoc]
    rfl
  · rw [List.length_append]
    exact Nat.add_le_add_right hn 1
  · rw [outs_concat]
    exact settled_outs hsettled port value

theorem Booting.weaken (h : Booting d (n + 1) b) : Booting d n b := by
  obtain ⟨made, ws, hws, hdoing, hn, hsettled⟩ := h.writes
  exact ⟨⟨made, ws, hws, hdoing, Nat.le_of_succ_le hn, hsettled⟩, h.flag, h.interrupted⟩

/-- When the interrupts go on, the devices are ready. -/
theorem Booting.enable (h : Booting d n b) (hdoing : b.doing = .init []) :
    Serving { b with interruptFlag := true, doing := .main } := by
  obtain ⟨made, ws, hws, hdoing', -, hsettled⟩ := h.writes
  have hnil : ws = [] := by
    rw [hdoing] at hdoing'
    exact (Doing.init.inj hdoing').symm
  rw [hnil, List.append_nil] at hws
  rw [outs_init d _ hws] at hsettled
  have hmaster := congrArg (fun d => d.pics.master) hsettled
  refine ⟨⟨congrArg Pic.waits hmaster, congrArg Pic.icw4 hmaster, congrArg Pic.base hmaster,
    congrArg Pic.imr hmaster⟩, congrArg Devices.pit hsettled, congrArg Pic.isr hmaster,
    .inl ⟨rfl, h.interrupted⟩⟩

theorem Booting.step (h : Booting d n b) (hs : Step sys halted b e b') : Live d n b' := by
  obtain ⟨made, ws, -, hdoing, -⟩ := h.writes
  cases hs with
  | tick => exact .inl (h.devices (settled_edge _ _))
  | missedTick => exact .inl h
  | edge => exact .inl (h.devices (settled_edge _ _))
  | key => exact .inl (h.devices (settled_keyed _ _))
  | accept hflag => rw [h.flag] at hflag; cases hflag
  | write hw => exact .inl (h.write hw).weaken
  | enable hw => exact .inr (h.enable hw)
  | main hd => rw [hdoing] at hd; cases hd
  | count hd => rw [hdoing] at hd; cases hd
  | eoi0 hd => rw [hdoing] at hd; cases hd
  | ret0 hd => rw [hdoing] at hd; cases hd
  | inb hd => rw [hdoing] at hd; cases hd
  | handle hd => rw [hdoing] at hd; cases hd
  | eoi1 hd => rw [hdoing] at hd; cases hd
  | ret1 hd => rw [hdoing] at hd; cases hd

/-- A change that leaves the devices settled as they were. -/
theorem Serving.devices (h : Serving b) {d' : Devices} (hd : settled d' = settled b.devices) :
    Serving { b with devices := d' } := by
  have hmaster := congrArg (fun d => d.pics.master) hd
  refine ⟨⟨?_, ?_, ?_, ?_⟩, (congrArg Devices.pit hd).trans h.pit, ?_, h.nests⟩
  · exact (congrArg Pic.waits hmaster).trans h.ready.waits
  · exact (congrArg Pic.icw4 hmaster).trans h.ready.icw4
  · exact (congrArg Pic.base hmaster).trans h.ready.base
  · exact (congrArg Pic.imr hmaster).trans h.ready.imr
  · exact (congrArg Pic.isr hmaster).trans h.isr

theorem Serving.not_init (h : Serving b) (ws : List PortWrite) : b.doing ≠ .init ws := by
  rcases h.nests with ⟨hdoing, -⟩ | ⟨-, -, ⟨i, hdoing⟩ | ⟨i, hdoing⟩⟩
  · simp [hdoing]
  · simp [hdoing]
  · simp [hdoing]

/-- Where the interrupts are on, the kernel's own code runs and no line is in service. -/
theorem Serving.interruptible (h : Serving b) (hflag : b.interruptFlag = true) :
    b.doing = .main ∧ b.interrupted = [] ∧ b.devices.pics.master.isr = 0 := by
  rcases h.nests with ⟨hdoing, hnone⟩ | ⟨hoff, -, -⟩
  · refine ⟨hdoing, hnone, ?_⟩
    rw [h.isr, hdoing]
    rfl
  · rw [hoff] at hflag
    cases hflag

/-- The two interrupts that can be taken. -/
theorem Serving.accept_cases (h : Serving b) (hflag : b.interruptFlag = true) {vector : Byte}
    {pics : Pics} (ha : b.devices.pics.acknowledge = some (vector, pics)) :
    (Doing.enter vector = .irq0 .count ∧ b.devices.pics.master.irr.getLsbD 0 = true ∧
        Served 0 b.devices.pics.master pics.master) ∨
      (Doing.enter vector = .irq1 .inb ∧ b.devices.pics.master.irr.getLsbD 0 = false ∧
        b.devices.pics.master.irr.getLsbD 1 = true ∧ Served 1 b.devices.pics.master pics.master) := by
  rcases h.ready.acknowledge_cases (h.interruptible hflag).2.2 ha with ⟨rfl, h0⟩ | ⟨rfl, h1⟩
  · exact .inl ⟨rfl, h0⟩
  · exact .inr ⟨rfl, h1⟩

theorem Serving.accept (h : Serving b) (hflag : b.interruptFlag = true) {vector : Byte} {pics : Pics}
    (ha : b.devices.pics.acknowledge = some (vector, pics)) :
    Serving { b with
      devices := { b.devices with pics := pics }
      interruptFlag := false
      doing := .enter vector
      interrupted := (b.doing, b.interruptFlag) :: b.interrupted } := by
  obtain ⟨hdoing, hnone, -⟩ := h.interruptible hflag
  have hcame : (b.doing, b.interruptFlag) :: b.interrupted = [(.main, true)] := by
    rw [hdoing, hflag, hnone]
  rcases h.accept_cases hflag ha with ⟨henter, -, hserved⟩ | ⟨henter, -, -, hserved⟩
  · rw [henter]
    exact ⟨hserved.toReady, h.pit, hserved.isr, .inr ⟨rfl, hcame, .inl ⟨_, rfl⟩⟩⟩
  · rw [henter]
    exact ⟨hserved.toReady, h.pit, hserved.isr, .inr ⟨rfl, hcame, .inr ⟨_, rfl⟩⟩⟩

/-- A handler that is not at its end goes on. -/
theorem Serving.within (h : Serving b) (hne : b.doing ≠ .main) {doing : Doing}
    (hservice : inService b.doing = inService doing)
    (hdoing : (∃ i, doing = .irq0 i) ∨ ∃ i, doing = .irq1 i) :
    b.devices.pics.master.isr = inService doing ∧ b.interruptFlag = false ∧
      b.interrupted = [(.main, true)] ∧ ((∃ i, doing = .irq0 i) ∨ ∃ i, doing = .irq1 i) := by
  rcases h.nests with ⟨hmain, -⟩ | ⟨hflag, hcame, -⟩
  · exact absurd hmain hne
  · exact ⟨h.isr.trans hservice, hflag, hcame, hdoing⟩

theorem Serving.ended (h : Serving b) (i : Fin 8) {doing : Doing}
    (hisr : b.devices.pics.master.isr = lineBit i) (hne : b.doing ≠ .main)
    (hservice : inService doing = 0) (hdoing : (∃ i, doing = .irq0 i) ∨ ∃ i, doing = .irq1 i) :
    Serving { b with devices := b.devices.outb pic1Command picEoi, doing := doing } := by
  rcases h.nests with ⟨hmain, -⟩ | ⟨hflag, hcame, -⟩
  · exact absurd hmain hne
  · rw [outb_eoi hisr]
    exact ⟨⟨h.ready.waits, h.ready.icw4, h.ready.base, h.ready.imr⟩, h.pit, hservice.symm,
      .inr ⟨hflag, hcame, hdoing⟩⟩

/-- A handler comes back to the kernel's own code, with the interrupts on. -/
theorem Serving.returned (h : Serving b) {d : Doing} {flag : Bool} {rest : List (Doing × Bool)}
    (hcame : b.interrupted = (d, flag) :: rest) (hservice : inService b.doing = 0) :
    Serving (b.resume d flag rest) ∧ d = .main ∧ flag = true := by
  rcases h.nests with ⟨-, hnone⟩ | ⟨-, hone, -⟩
  · rw [hnone] at hcame
    cases hcame
  · rw [hone] at hcame
    obtain ⟨hd, rfl⟩ := List.cons.inj hcame
    obtain ⟨rfl, rfl⟩ := Prod.mk.inj hd
    refine ⟨⟨h.ready, h.pit, ?_, .inl ⟨rfl, rfl⟩⟩, rfl, rfl⟩
    exact h.isr.trans hservice

theorem Serving.step (h : Serving b) (hs : Step sys halted b e b') : Serving b' := by
  cases hs with
  | tick => exact h.devices (settled_edge _ _)
  | missedTick => exact h
  | edge => exact h.devices (settled_edge _ _)
  | key => exact h.devices (settled_keyed _ _)
  | accept hflag ha => exact h.accept hflag ha
  | write hd => exact absurd hd (h.not_init _)
  | enable hd => exact absurd hd (h.not_init _)
  | main hd =>
    rcases h.nests with hmain | ⟨-, -, ⟨i, hi⟩ | ⟨i, hi⟩⟩
    · exact ⟨h.ready, h.pit, h.isr, .inl hmain⟩
    · rw [hd] at hi
      cases hi
    · rw [hd] at hi
      cases hi
  | count hd =>
    obtain ⟨hisr, hrest⟩ := h.within (by simp [hd]) (by rw [hd]; rfl) (.inl ⟨.eoi, rfl⟩)
    exact ⟨h.ready, h.pit, hisr, .inr hrest⟩
  | eoi0 hd => exact h.ended 0 (h.isr.trans (by rw [hd]; rfl)) (by simp [hd]) rfl (.inl ⟨_, rfl⟩)
  | ret0 hd hcame => exact (h.returned hcame (by rw [hd]; rfl)).1
  | inb hd =>
    obtain ⟨hisr, hrest⟩ := h.within (by simp [hd]) (by rw [hd]; rfl) (.inr ⟨.handle _, rfl⟩)
    exact ⟨h.ready, h.pit, hisr, .inr hrest⟩
  | handle hd =>
    obtain ⟨hisr, hrest⟩ := h.within (by simp [hd]) (by rw [hd]; rfl) (.inr ⟨.eoi, rfl⟩)
    exact ⟨h.ready, h.pit, hisr, .inr hrest⟩
  | eoi1 hd => exact h.ended 1 (h.isr.trans (by rw [hd]; rfl)) (by simp [hd]) rfl (.inr ⟨_, rfl⟩)
  | ret1 hd hcame => exact (h.returned hcame (by rw [hd]; rfl)).1

theorem Live.step (h : Live d n b) (hs : Step sys halted b e b') : Live d n b' := by
  rcases h with h | h
  · exact h.step hs
  · exact .inr (h.step hs)

theorem Live.run (h : Live d n b) (hrun : Run (Step sys halted) b es b') : Live d n b' :=
  hrun.invariant h fun _ _ _ ht hs => ht.step hs

theorem initWrites_tail (mask2 : Byte) : ∃ ws : List PortWrite,
    initWrites mask2 = some ((pic1Command, icw1Init ||| icw1Icw4) :: ws) ∧
      ∀ w ∈ ws, w.1 ≠ pic1Command := by
  refine ⟨_, rfl, ?_⟩
  simp [ioWait, pic1Command, pic1Data, pic2Command, pic2Data, pitCommandPort, pitChannel0Port]

/-- The first write takes back all that waited at the first controller. -/
structure Reset (b b₁ : Board σ) : Prop where
  booting : Booting b.devices 1 b₁
  irr : b₁.devices.pics.master.irr = 0
  keys : b₁.devices.keys = b.devices.keys
  kernel : b₁.kernel = b.kernel
  gTicks : b₁.gTicks = b.gTicks

theorem AtReset.first (h : AtReset b) (hs : Step sys halted b .cpu b') : Reset b b' := by
  obtain ⟨ws, hws, hdoing⟩ := h.doing
  obtain ⟨tail, htail, -⟩ := initWrites_tail b.devices.pics.slave.imr
  obtain rfl := Option.some.inj (hws.symm.trans htail)
  cases hs with
  | write hd =>
    have hfirst := h.booting.write hd
    obtain ⟨hw, -⟩ := List.cons.inj (Doing.init.inj (hdoing.symm.trans hd))
    obtain ⟨rfl, rfl⟩ := Prod.mk.inj hw
    exact ⟨hfirst, rfl, rfl, rfl, rfl⟩
  | enable hd => rw [hdoing] at hd; cases hd
  | count hd => rw [hdoing] at hd; cases hd
  | eoi0 hd => rw [hdoing] at hd; cases hd
  | ret0 hd => rw [hdoing] at hd; cases hd
  | inb hd => rw [hdoing] at hd; cases hd
  | handle hd => rw [hdoing] at hd; cases hd
  | eoi1 hd => rw [hdoing] at hd; cases hd
  | ret1 hd => rw [hdoing] at hd; cases hd

/-- No later write does. -/
theorem Booting.later (h : Booting d 1 b) {w : PortWrite} {ws : List PortWrite}
    (hdoing : b.doing = .init (w :: ws)) : w.1 ≠ pic1Command := by
  obtain ⟨made, rest, hws, hdoing', hone, -⟩ := h.writes
  obtain rfl := Doing.init.inj (hdoing.symm.trans hdoing')
  obtain ⟨tail, htail, hall⟩ := initWrites_tail d.pics.slave.imr
  rw [htail] at hws
  cases made with
  | nil => simp at hone
  | cons first made =>
    obtain ⟨-, rfl⟩ := List.cons.inj (Option.some.inj hws)
    exact hall w (by simp)

/-- The end of an interrupt leaves what waits. -/
theorem Serving.eoi_same (h : Serving b) {i : Fin 8} (hi : inService b.doing = lineBit i) :
    b.devices.outb pic1Command picEoi =
      { b.devices with
        pics := { b.devices.pics with master := { b.devices.pics.master with isr := 0 } } } :=
  outb_eoi (h.isr.trans hi)

/-- A handler that is about to return comes back to the kernel's own code. -/
theorem Serving.return_main (h : Serving b) {d : Doing} {flag : Bool} {rest : List (Doing × Bool)}
    (hcame : b.interrupted = (d, flag) :: rest) : d = .main ∧ flag = true := by
  rcases h.nests with ⟨-, hnone⟩ | ⟨-, hone, -⟩
  · rw [hnone] at hcame
    cases hcame
  · rw [hone] at hcame
    obtain ⟨hd, -⟩ := List.cons.inj hcame
    obtain ⟨rfl, rfl⟩ := Prod.mk.inj hd
    exact ⟨rfl, rfl⟩

end Kernix.Proofs
