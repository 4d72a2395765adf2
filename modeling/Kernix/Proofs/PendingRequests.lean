import Kernix.Keyboard.Scancodes
import Kernix.Proofs.DeliveredKeys

namespace Kernix.Proofs
open Library Keyboard Interrupts Board

variable {σ : Type} {sys : σ → KeyEvent → σ → Prop} {halted : σ → Bool} {b b₁ b' : Board σ}
  {d : Devices} {n : Nat} {e : BoardEvent} {es : List BoardEvent} {g₀ : U32}

/-! The ticks, up to the ones that are not counted yet. -/

/-- What a step means for a tick. -/
inductive TickMove (b : Board σ) (e : BoardEvent) (b' : Board σ) : Prop
  | stays (he : e.isTick = false) (hg : b'.gTicks = b.gTicks) (hn : uncounted b' = uncounted b)
  | raised (he : e.isTick = true) (hg : b'.gTicks = b.gTicks) (hn : uncounted b' = uncounted b + 1)
  | counted (he : e.isTick = false) (hg : b'.gTicks = b.gTicks + 1)
      (hn : uncounted b = uncounted b' + 1)

theorem uncounted_same
    (hirr : b'.devices.pics.master.irr.getLsbD 0 = b.devices.pics.master.irr.getLsbD 0)
    (hdoing : tickAccepted b'.doing = tickAccepted b.doing) : uncounted b' = uncounted b := by
  rw [uncounted, uncounted, hirr, hdoing]

theorem edge_tickWaits (d : Devices) {line : Fin 16} (h : line.val ≠ 0) :
    (d.edge line).pics.master.irr.getLsbD 0 = d.pics.master.irr.getLsbD 0 := by
  have hedge := edge_irr d line 0
  rwa [Fin.val_zero, decide_eq_false h, Bool.or_false] at hedge

theorem Live.tickMove (h : Live d 1 b) (hs : Step sys halted b e b') : TickMove b e b' := by
  cases hs with
  | tick hlow =>
    refine .raised rfl rfl ?_
    have hedge : (b.devices.edge 0).pics.master.irr.getLsbD 0 = true :=
      (edge_irr b.devices 0 0).trans (Bool.or_true _)
    rw [uncounted, uncounted, hlow, hedge, Bool.toNat_true, Bool.toNat_false, Nat.zero_add]
    exact Nat.add_comm 1 _
  | missedTick => exact .stays rfl rfl rfl
  | edge hline =>
    exact .stays rfl rfl (uncounted_same (edge_tickWaits b.devices (by omega)) rfl)
  | key =>
    exact .stays rfl rfl (uncounted_same (edge_tickWaits { b.devices with keys := _ } (by decide)) rfl)
  | accept hflag ha =>
    rcases h with h | h
    · rw [h.flag] at hflag
      cases hflag
    obtain ⟨hmain, -, -⟩ := h.interruptible hflag
    rcases h.accept_cases hflag ha with ⟨henter, hirr, hserved⟩ | ⟨henter, hirr, -, hserved⟩
    · refine .stays rfl rfl ?_
      have hcleared := (hserved.irr 0 (by decide)).trans (Bool.and_false _)
      rw [uncounted, uncounted, henter, hmain, hirr]
      exact congrArg (fun i : Bool => i.toNat + 1) hcleared
    · refine .stays rfl rfl (uncounted_same ((hserved.irr 0 (by decide)).trans (Bool.and_true _)) ?_)
      rw [henter, hmain]
      rfl
  | write hd =>
    rcases h with h | h
    · refine .stays rfl rfl (uncounted_same ?_ (by rw [hd]; rfl))
      rw [(outb_irr (d := b.devices) (h.later hd) _).1]
    · exact absurd hd (h.not_init _)
  | enable hd => exact .stays rfl rfl (uncounted_same rfl (by rw [hd]; rfl))
  | main hd => exact .stays rfl rfl (uncounted_same rfl rfl)
  | count hd =>
    refine .counted rfl rfl ?_
    rw [uncounted, uncounted, hd]
    rfl
  | eoi0 hd =>
    rcases h with h | h
    · obtain ⟨_, _, -, hdoing, -⟩ := h.writes
      rw [hdoing] at hd
      cases hd
    refine .stays rfl rfl (uncounted_same ?_ (by rw [hd]; rfl))
    rw [h.eoi_same (i := 0) (by rw [hd]; rfl)]
  | ret0 hd hcame =>
    rcases h with h | h
    · rw [h.interrupted] at hcame
      cases hcame
    obtain ⟨rfl, -⟩ := h.return_main hcame
    exact .stays rfl rfl (uncounted_same rfl (by rw [hd]; rfl))
  | inb hd => exact .stays rfl rfl (uncounted_same rfl (by rw [hd]; rfl))
  | handle hd => exact .stays rfl rfl (uncounted_same rfl (by rw [hd]; rfl))
  | eoi1 hd =>
    rcases h with h | h
    · obtain ⟨_, _, -, hdoing, -⟩ := h.writes
      rw [hdoing] at hd
      cases hd
    refine .stays rfl rfl (uncounted_same ?_ (by rw [hd]; rfl))
    rw [h.eoi_same (i := 1) (by rw [hd]; rfl)]
  | ret1 hd hcame =>
    rcases h with h | h
    · rw [h.interrupted] at hcame
      cases hcame
    obtain ⟨rfl, -⟩ := h.return_main hcame
    exact .stays rfl rfl (uncounted_same rfl (by rw [hd]; rfl))

theorem ticks_snoc (es : List BoardEvent) (e : BoardEvent) :
    ticks (es ++ [e]) = ticks es + e.isTick.toNat := by
  cases h : e.isTick with
  | true => simp [ticks, h]
  | false => simp [ticks, h]

/-- `g_ticks` and what it has not counted make up the ticks. -/
theorem Live.ticks_run (h : Live d 1 b) (hrun : Run (Step sys halted) b es b') :
    ∃ m, b'.gTicks = b.gTicks + BitVec.ofNat 32 m ∧ m + uncounted b' = ticks es + uncounted b := by
  induction hrun with
  | nil => exact ⟨0, (BitVec.add_zero _).symm, rfl⟩
  | snoc hrun hs ih =>
    obtain ⟨m, hg, hm⟩ := ih
    rw [ticks_snoc]
    cases (h.run hrun).tickMove hs with
    | stays he hg' hn => exact ⟨m, hg'.trans hg, by rw [he, hn]; exact hm⟩
    | raised he hg' hn =>
      refine ⟨m, hg'.trans hg, ?_⟩
      rw [he, hn, Bool.toNat_true]
      omega
    | counted he hg' hn =>
      refine ⟨m + 1, ?_, ?_⟩
      · rw [hg', hg, BitVec.add_assoc, BitVec.ofNat_add]
        rfl
      · rw [he, Bool.toNat_false]
        omega

theorem Reset.uncounted (h : Reset b b₁) : uncounted b₁ = 0 := by
  obtain ⟨_, _, -, hdoing, -⟩ := h.booting.writes
  rw [Board.uncounted, h.irr, hdoing]
  rfl

/-- Every tick of the timer since the reset is counted once, or it waits; those that came while one
waited are lost. -/
theorem ticks_counted (h : AtReset b) (hs : Step sys halted b .cpu b₁)
    (hrun : Run (Step sys halted) b₁ es b') :
    ∃ m, b'.gTicks = b.gTicks + BitVec.ofNat 32 m ∧ m + uncounted b' = ticks es := by
  have hreset := h.first hs
  obtain ⟨m, hg, hm⟩ := Live.ticks_run (.inl hreset.booting) hrun
  rw [hreset.uncounted] at hm
  exact ⟨m, hreset.gTicks ▸ hg, hm⟩

/-! The processor's own steps. -/

def Own (es : List BoardEvent) : Prop := ∀ e ∈ es, e = .accept ∨ e = .cpu

theorem own_nil : Own [] := by simp [Own]

theorem Own.append {es es' : List BoardEvent} (h : Own es) (h' : Own es') : Own (es ++ es') := by
  intro e he
  rcases List.mem_append.mp he with he | he
  · exact h e he
  · exact h' e he

theorem own_cpu : Own [.cpu] := by simp [Own]

theorem own_accept : Own [.accept] := by simp [Own]

theorem Own.sent (h : Own es) : sent es = [] := by
  refine List.filterMap_eq_nil_iff.mpr fun e he => ?_
  rcases h e he with rfl | rfl
  · rfl
  · rfl

theorem Own.ticks (h : Own es) : ticks es = 0 := by
  refine List.countP_eq_zero.mpr fun e he => ?_
  rcases h e he with rfl | rfl
  · exact Bool.false_ne_true
  · exact Bool.false_ne_true

/-- The kernel's own code, ready to be interrupted. -/
structure Awake (b : Board σ) : Prop where
  serving : Serving b
  doing : b.doing = .main
  flag : b.interruptFlag = true

/-- The writes of `interrupts_init` are made, and the interrupts go on. -/
theorem Booting.finishes (sys : σ → KeyEvent → σ → Prop) (halted : σ → Bool) {ws : List PortWrite}
    (h : Booting d n b) (hdoing : b.doing = .init ws) :
    ∃ es b', Run (Step sys halted) b es b' ∧ Own es ∧ Awake b' ∧ b'.kernel = b.kernel := by
  induction ws generalizing b with
  | nil => exact ⟨_, _, .single (.enable hdoing), own_cpu, ⟨h.enable hdoing, rfl, rfl⟩, rfl⟩
  | cons w ws ih =>
    obtain ⟨es, b', hrun, hown, hawake, hkernel⟩ := ih (h.write hdoing).weaken rfl
    exact ⟨_, b', (Run.single (.write hdoing)).append hrun, own_cpu.append hown, hawake, hkernel⟩

/-- The steps to the end of a handler. -/
def left : Doing → Nat
  | .irq0 .count => 3
  | .irq0 .eoi => 2
  | .irq0 .ret => 1
  | .irq1 .inb => 4
  | .irq1 (.handle _) => 3
  | .irq1 .eoi => 2
  | .irq1 .ret => 1
  | _ => 0

theorem Serving.handler_step (halted : σ → Bool) (hsys : ∀ k c, ∃ k', sys k (.interrupt c) k')
    (h : Serving b) (hne : b.doing ≠ .main) :
    ∃ b', Step sys halted b .cpu b' ∧ b'.devices.pics.master.irr = b.devices.pics.master.irr ∧
      left b'.doing < left b.doing ∧ (b'.doing = .main → b'.interruptFlag = true) := by
  rcases h.nests with ⟨hmain, -⟩ | ⟨hflag, hcame, ⟨i, hdoing⟩ | ⟨i, hdoing⟩⟩
  · exact absurd hmain hne
  · cases i with
    | count => exact ⟨_, .count hdoing, rfl, by rw [hdoing]; exact Nat.lt_succ_self 2, nofun⟩
    | eoi =>
      refine ⟨_, .eoi0 hdoing, ?_, by rw [hdoing]; exact Nat.lt_succ_self 1, nofun⟩
      rw [h.eoi_same (i := 0) (by rw [hdoing]; rfl)]
    | ret => exact ⟨_, .ret0 hdoing hcame, rfl, by rw [hdoing]; exact Nat.zero_lt_one, fun _ => rfl⟩
  · cases i with
    | inb => exact ⟨_, .inb hdoing, rfl, by rw [hdoing]; exact Nat.lt_succ_self 3, nofun⟩
    | handle c =>
      obtain ⟨k', hk⟩ := hsys b.kernel c
      exact ⟨_, .handle hdoing hk, rfl, by rw [hdoing]; exact Nat.lt_succ_self 2, nofun⟩
    | eoi =>
      refine ⟨_, .eoi1 hdoing, ?_, by rw [hdoing]; exact Nat.lt_succ_self 1, nofun⟩
      rw [h.eoi_same (i := 1) (by rw [hdoing]; rfl)]
    | ret => exact ⟨_, .ret1 hdoing hcame, rfl, by rw [hdoing]; exact Nat.zero_lt_one, fun _ => rfl⟩

theorem Serving.handler_ends (halted : σ → Bool) (hsys : ∀ k c, ∃ k', sys k (.interrupt c) k')
    (n : Nat) (h : Serving b) (hn : left b.doing ≤ n) (hflag : b.doing = .main → b.interruptFlag = true) :
    ∃ es b', Run (Step sys halted) b es b' ∧ Own es ∧ Awake b' ∧
      b'.devices.pics.master.irr = b.devices.pics.master.irr := by
  induction n generalizing b with
  | zero =>
    by_cases hmain : b.doing = .main
    · exact ⟨[], b, .nil, own_nil, ⟨h, hmain, hflag hmain⟩, rfl⟩
    · obtain ⟨b', -, -, hleft, -⟩ := h.handler_step halted hsys hmain
      omega
  | succ n ih =>
    by_cases hmain : b.doing = .main
    · exact ⟨[], b, .nil, own_nil, ⟨h, hmain, hflag hmain⟩, rfl⟩
    obtain ⟨b₁, hs, hirr, hleft, hflag₁⟩ := h.handler_step halted hsys hmain
    obtain ⟨es, b', hrun, hown, hawake, hirr'⟩ := ih (h.step hs) (by omega) hflag₁
    exact ⟨_, b', (Run.single hs).append hrun, own_cpu.append hown, hawake, hirr'.trans hirr⟩

/-- The requests that the kernel takes. -/
def waiting (b : Board σ) : Nat :=
  (b.devices.pics.master.irr.getLsbD 0).toNat + (b.devices.pics.master.irr.getLsbD 1).toNat

/-- A request is taken at once, and its handler comes to its end. -/
theorem Awake.serves (halted : σ → Bool) (hsys : ∀ k c, ∃ k', sys k (.interrupt c) k') (h : Awake b)
    (hwaits : 0 < waiting b) :
    ∃ es b', Run (Step sys halted) b es b' ∧ Own es ∧ Awake b' ∧ waiting b' < waiting b := by
  have hisr := (h.serving.interruptible h.flag).2.2
  obtain ⟨vector, pics, hack⟩ : ∃ vector pics, b.devices.pics.acknowledge = some (vector, pics) := by
    rw [h.serving.ready.acknowledge hisr]
    unfold waiting at hwaits
    cases h0 : b.devices.pics.master.irr.getLsbD 0 with
    | true => exact ⟨_, _, if_pos rfl⟩
    | false =>
      cases h1 : b.devices.pics.master.irr.getLsbD 1 with
      | true => exact ⟨_, _, rfl⟩
      | false =>
        rw [h0, h1] at hwaits
        exact absurd hwaits (Nat.lt_irrefl 0)
  have haccept : Step sys halted b .accept _ := .accept h.flag hack
  have hserving := h.serving.step haccept
  have hhandler : Doing.enter vector ≠ .main := by
    rcases h.serving.accept_cases h.flag hack with ⟨henter, -⟩ | ⟨henter, -⟩
    · simp [henter]
    · simp [henter]
  obtain ⟨es, b', hrun, hown, hawake, hirr⟩ :=
    hserving.handler_ends halted hsys _ (Nat.le_refl _) fun hmain => absurd hmain hhandler
  refine ⟨_, b', (Run.single haccept).append hrun, own_accept.append hown, hawake, ?_⟩
  unfold waiting
  rw [hirr]
  rcases h.serving.accept_cases h.flag hack with ⟨-, h0, hserved⟩ | ⟨-, h0, h1, hserved⟩
  · have h0' : pics.master.irr.getLsbD 0 = false :=
      (hserved.irr 0 (by decide)).trans (Bool.and_false _)
    have h1' : pics.master.irr.getLsbD 1 = b.devices.pics.master.irr.getLsbD 1 :=
      (hserved.irr 1 (by decide)).trans (Bool.and_true _)
    simp only [h0', h1', h0]
    exact Nat.add_lt_add_right Nat.zero_lt_one _
  · have h0' : pics.master.irr.getLsbD 0 = b.devices.pics.master.irr.getLsbD 0 :=
      (hserved.irr 0 (by decide)).trans (Bool.and_true _)
    have h1' : pics.master.irr.getLsbD 1 = false :=
      (hserved.irr 1 (by decide)).trans (Bool.and_false _)
    simp only [h0', h1', h1]
    exact Nat.add_lt_add_left Nat.zero_lt_one _

theorem Awake.rests (halted : σ → Bool) (hsys : ∀ k c, ∃ k', sys k (.interrupt c) k') (n : Nat)
    (h : Awake b) (hn : waiting b ≤ n) :
    ∃ es b', Run (Step sys halted) b es b' ∧ Own es ∧ Awake b' ∧ waiting b' = 0 := by
  induction n generalizing b with
  | zero => exact ⟨[], b, .nil, own_nil, h, Nat.le_zero.mp hn⟩
  | succ n ih =>
    by_cases hzero : waiting b = 0
    · exact ⟨[], b, .nil, own_nil, h, hzero⟩
    obtain ⟨es, b₁, hrun, hown, hawake, hless⟩ :=
      h.serves halted hsys (Nat.pos_of_ne_zero hzero)
    obtain ⟨es', b', hrun', hown', hawake', hrest⟩ := ih hawake (by omega)
    exact ⟨_, b', hrun.append hrun', hown.append hown', hawake', hrest⟩

/-- The kernel's own code has not turned the interrupts off. -/
def Wakeful (b : Board σ) : Prop := b.doing = .main → b.interruptFlag = true

theorem Wakeful.step (h : Live d n b) (hwake : Wakeful b)
    (hs : Step sys (fun _ => false) b e b') : Wakeful b' := by
  cases hs with
  | tick => exact hwake
  | missedTick => exact hwake
  | edge => exact hwake
  | key => exact hwake
  | accept hflag ha =>
    intro hmain
    rcases h with h | h
    · rw [h.flag] at hflag
      cases hflag
    rcases h.accept_cases hflag ha with ⟨henter, -⟩ | ⟨henter, -⟩
    · rw [henter] at hmain
      cases hmain
    · rw [henter] at hmain
      cases hmain
  | write => exact nofun
  | enable => exact fun _ => rfl
  | main hd => exact fun _ => by simp [hwake hd]
  | count => exact nofun
  | eoi0 => exact nofun
  | ret0 hd hcame =>
    rcases h with h | h
    · rw [h.interrupted] at hcame
      cases hcame
    · exact fun _ => (h.return_main hcame).2
  | inb => exact nofun
  | handle => exact nofun
  | eoi1 => exact nofun
  | ret1 hd hcame =>
    rcases h with h | h
    · rw [h.interrupted] at hcame
      cases hcame
    · exact fun _ => (h.return_main hcame).2

theorem Live.wakeful (h : Live d n b) (hwake : Wakeful b)
    (hrun : Run (Step sys fun _ => false) b es b') : Wakeful b' := by
  induction hrun with
  | nil => exact hwake
  | snoc hrun hs ih => exact ih.step (h.run hrun) hs

/-- From anywhere, the processor's own steps take it to where nothing waits. -/
theorem Live.rests (halted : σ → Bool) (hsys : ∀ k c, ∃ k', sys k (.interrupt c) k') (h : Live d n b)
    (hwake : Wakeful b) :
    ∃ es b', Run (Step sys halted) b es b' ∧ Own es ∧ Awake b' ∧ waiting b' = 0 := by
  have hawake : ∃ es b', Run (Step sys halted) b es b' ∧ Own es ∧ Awake b' := by
    rcases h with h | h
    · obtain ⟨_, ws, -, hdoing, -⟩ := h.writes
      obtain ⟨es, b', hrun, hown, hawake, -⟩ := h.finishes sys halted hdoing
      exact ⟨es, b', hrun, hown, hawake⟩
    · obtain ⟨es, b', hrun, hown, hawake, -⟩ :=
        h.handler_ends halted hsys _ (Nat.le_refl _) hwake
      exact ⟨es, b', hrun, hown, hawake⟩
  obtain ⟨es, b₁, hrun, hown, hawake⟩ := hawake
  obtain ⟨es', b', hrun', hown', hrest⟩ := hawake.rests halted hsys _ (Nat.le_refl _)
  exact ⟨_, b', hrun.append hrun', hown.append hown', hrest⟩

end Kernix.Proofs
