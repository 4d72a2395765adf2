import Kernix.Proofs.PendingRequests
import Kernix.Proofs.TypedLines

namespace Kernix.Proofs
open Library Keyboard Interrupts Board Shell

variable {σ : Type} {sys : σ → KeyEvent → σ → Prop} {halted : σ → Bool} {b b₁ b' : Board σ}
  {d : Devices} {n : Nat} {e : KeyEvent} {es : List BoardEvent} {ks : List KeyEvent} {k k' : σ}

/-- From the reset of the controllers on, whatever state they were in and in every interleaving with
the devices, the kernel initialises with the interrupts off, or it serves one of its two lines at a
time: no other vector comes, and no handler is interrupted. -/
theorem interrupts_never_stray (h : AtReset b) (hrun : Run (Step sys halted) b es b') :
    ((∃ ws, b'.doing = .init ws) ∧ b'.interruptFlag = false ∧ b'.interrupted = []) ∨ Serving b' := by
  have hlive : Live b.devices 0 b := .inl (AtReset.booting h)
  rcases hlive.run hrun with hboot | hserving
  · obtain ⟨_, ws, -, hdoing, -⟩ := hboot.writes
    exact .inl ⟨⟨ws, hdoing⟩, hboot.flag, hboot.interrupted⟩
  · exact .inr hserving

/-! What the driver can do with scancodes at any time, it can do behind the controllers. -/

/-- The kernel's own code, with no request and no scancode waiting. -/
structure Resting (b : Board σ) : Prop where
  serving : Serving b
  doing : b.doing = .main
  irr : ∀ j : Fin 8, j < 2 → b.devices.pics.master.irr.getLsbD j.val = false
  empty : b.devices.keys.full = false

theorem Resting.keys (h : Resting b) : inHand b = [] ∧ unread b = [] := by
  constructor
  · rw [inHand, h.doing]
  · simp [unread, h.empty]

theorem Resting.main (h : Resting b) (hs : Step sys halted b (.main e) b') (hdoing : b'.doing = .main)
    (hdevices : b'.devices = b.devices) : Resting b' := by
  refine ⟨h.serving.step hs, hdoing, ?_, ?_⟩
  · rw [hdevices]
    exact h.irr
  · rw [hdevices]
    exact h.empty

/-- What both handlers do once they have done their work. -/
theorem Serving.comes_back (sys : σ → KeyEvent → σ → Prop) (halted : σ → Bool) (h : Serving b)
    (hdoing : b.doing = .irq1 .eoi) :
    ∃ b', Run (Step sys halted) b [.cpu, .cpu] b' ∧ Awake b' ∧ b'.kernel = b.kernel ∧
      b'.devices.pics.master.irr = b.devices.pics.master.irr ∧
      b'.devices.keys = b.devices.keys := by
  have hsame := h.eoi_same (i := 1) (by rw [hdoing]; rfl)
  obtain ⟨b₁, heoi, hdoing₁, hdevices, hkernel⟩ : ∃ b₁, Step sys halted b .cpu b₁ ∧
      b₁.doing = .irq1 .ret ∧ b₁.devices = b.devices.outb pic1Command picEoi ∧ b₁.kernel = b.kernel :=
    ⟨_, .eoi1 hdoing, rfl, rfl, rfl⟩
  have hserving := h.step heoi
  obtain ⟨-, hcame, -⟩ := hserving.nests.resolve_left fun hmain => by
    rw [hdoing₁] at hmain
    cases hmain.1
  have hret : Step sys halted b₁ .cpu _ := .ret1 hdoing₁ hcame
  refine ⟨_, (Run.single heoi).snoc hret, ⟨hserving.step hret, rfl, rfl⟩, hkernel, ?_, ?_⟩
  · change b₁.devices.pics.master.irr = _
    rw [hdevices, hsame]
  · change b₁.devices.keys = _
    rw [hdevices, hsame]

/-- `irq1_handler` from its first step to its return. -/
theorem Serving.handles (halted : σ → Bool) (h : Serving b) (hdoing : b.doing = .irq1 .inb)
    (hk : sys b.kernel (.interrupt b.devices.keys.data) k') :
    ∃ b', Run (Step sys halted) b ([.cpu, .cpu] ++ [.cpu, .cpu]) b' ∧ Awake b' ∧ b'.kernel = k' ∧
      b'.devices.pics.master.irr = b.devices.pics.master.irr ∧ b'.devices.keys.full = false := by
  obtain ⟨b₁, hinb, hdoing₁, hkernel, hirr, hempty⟩ : ∃ b₁, Step sys halted b .cpu b₁ ∧
      b₁.doing = .irq1 (.handle b.devices.keys.data) ∧ b₁.kernel = b.kernel ∧
      b₁.devices.pics = b.devices.pics ∧ b₁.devices.keys.full = false :=
    ⟨_, .inb hdoing, rfl, rfl, rfl, rfl⟩
  obtain ⟨b₂, hhandle, hdoing₂, hkernel₂, hdevices⟩ : ∃ b₂, Step sys halted b₁ .cpu b₂ ∧
      b₂.doing = .irq1 .eoi ∧ b₂.kernel = k' ∧ b₂.devices = b₁.devices :=
    ⟨_, .handle hdoing₁ (hkernel ▸ hk), rfl, rfl, rfl⟩
  obtain ⟨b', hrun, hawake, hkernel', hirr', hkeys⟩ :=
    Serving.comes_back sys halted ((h.step hinb).step hhandle) hdoing₂
  refine ⟨b', ((Run.single hinb).snoc hhandle).append hrun, hawake, hkernel'.trans hkernel₂, ?_, ?_⟩
  · rw [hirr', hdevices, hirr]
  · rw [hkeys, hdevices, hempty]

/-- A scancode comes in, and is handled at once. -/
theorem Resting.key (halted : σ → Bool) (h : Resting b) (hflag : b.interruptFlag = true) {c : Byte}
    (hk : sys b.kernel (.interrupt c) k') :
    ∃ es b', Run (Step sys halted) b es b' ∧ sent es = [c] ∧ b'.kernel = k' ∧ Resting b' ∧
      b'.interruptFlag = true := by
  obtain ⟨b₁, hkey, hdevices, hkernel, hflag₁⟩ : ∃ b₁, Step sys halted b (.key c) b₁ ∧
      b₁.devices = b.devices.keyed c ∧ b₁.kernel = b.kernel ∧ b₁.interruptFlag = true :=
    ⟨_, .key h.empty, rfl, rfl, hflag⟩
  have hserving := h.serving.step hkey
  have hisr := (hserving.interruptible hflag₁).2.2
  have h0 : b₁.devices.pics.master.irr.getLsbD 0 = false := by
    rw [hdevices]
    exact (edge_tickWaits { b.devices with keys := ⟨c, true⟩ } (by decide)).trans (h.irr 0 (by decide))
  have h1 : b₁.devices.pics.master.irr.getLsbD 1 = true := by
    rw [hdevices, keyed_keyWaits]
  have hack := hserving.ready.acknowledge hisr
  rw [h0, h1, if_neg Bool.false_ne_true, if_pos rfl] at hack
  have haccept : Step sys halted b₁ .accept _ := .accept hflag₁ hack
  obtain ⟨b', hrun, hawake, hkernel', hirr, hempty⟩ :=
    Serving.handles halted (hserving.step haccept) rfl
      (by
        change sys b₁.kernel (.interrupt b₁.devices.keys.data) k'
        rw [hkernel, hdevices]
        exact hk)
  refine ⟨_, b', ((Run.single hkey).snoc haccept).append hrun, rfl, hkernel', ?_, hawake.flag⟩
  refine ⟨hawake.serving, hawake.doing, fun j hj => ?_, hempty⟩
  rw [hirr]
  refine ((hserving.ready.serve hisr 1).irr j hj).trans ?_
  obtain rfl | rfl : j = 0 ∨ j = 1 := by omega
  · exact congrArg (fun i => i && true) h0
  · exact Bool.and_false _

/-- Whatever steps the driver takes with scancodes that come in at any time, the machine takes with
the keyboard behind the controllers. -/
theorem Resting.realises (hhalt : ∀ k e k', sys k e k' → halted k = false) (h : Resting b)
    (hwake : halted b.kernel = false → b.interruptFlag = true) (hrun : Run sys b.kernel ks k) :
    ∃ es b', Run (Step sys halted) b es b' ∧ sent es = scancodes ks ∧ b'.kernel = k ∧ Resting b' ∧
      (halted k = false → b'.interruptFlag = true) := by
  induction hrun with
  | nil => exact ⟨[], b, .nil, rfl, rfl, h, hwake⟩
  | @snoc ks e k k' _ hs ih =>
    obtain ⟨es, b₁, hrun, hsent, rfl, hrest, hwake₁⟩ := ih
    have hflag := hwake₁ (hhalt _ _ _ hs)
    cases he : e.scancode? with
    | some c =>
      have hinterrupt : e = .interrupt c := by
        cases e with
        | interrupt c' => exact congrArg KeyEvent.interrupt (Option.some.inj he)
        | check => cases he
        | read => cases he
        | advance => cases he
      subst hinterrupt
      obtain ⟨es', b', hrun', hsent', hkernel, hrest', hflag'⟩ := hrest.key halted hflag hs
      refine ⟨es ++ es', b', hrun.append hrun', ?_, hkernel, hrest', fun _ => hflag'⟩
      rw [sent, List.filterMap_append, ← sent, ← sent, hsent, hsent', scancodes_interrupt]
    | none =>
      have hmain : Step sys halted b₁ (.main e) _ := .main hrest.doing he hs
      refine ⟨_, _, hrun.snoc hmain, ?_, rfl, hrest.main hmain hrest.doing rfl, fun hk => ?_⟩
      · rw [sent_snoc, hsent, scancodes_other ks he]
        exact List.append_nil _
      · change (b₁.interruptFlag && !halted k') = true
        rw [hflag, hk]
        rfl

theorem keyWaits_of_keys (h : KeysServed sys k b []) : keyWaits b = false := by
  obtain ⟨_, -, hcodes⟩ := h.kernel
  have hnone : unread b = [] := (List.append_eq_nil_iff.mp hcodes.symm).2
  have hempty : b.devices.keys.full = false := by
    cases hfull : b.devices.keys.full with
    | false => rfl
    | true =>
      rw [unread, hfull] at hnone
      cases hnone
  have hfull := h.full
  rw [hempty] at hfull
  exact (Bool.or_eq_false_iff.mp hfull.symm).1

/-- With an empty controller at the reset, the kernel comes to rest before anything else happens. -/
theorem Reset.rests (sys : σ → KeyEvent → σ → Prop) (halted : σ → Bool) (h : Reset b b₁)
    (hempty : b.devices.keys.full = false) :
    ∃ es b', Run (Step sys halted) b₁ es b' ∧ sent es = [] ∧ b'.kernel = b.kernel ∧ Resting b' ∧
      b'.interruptFlag = true := by
  obtain ⟨_, ws, -, hdoing, -⟩ := h.booting.writes
  obtain ⟨es, b', hrun, hown, hawake, hkernel⟩ := h.booting.finishes sys halted hdoing
  have hlive : Live b.devices 1 b₁ := .inl h.booting
  have hstart : KeysServed sys b.kernel b₁ [] := h.keysServed hempty
  have hkeys := hstart.run hlive hrun
  rw [hown.sent, List.append_nil] at hkeys
  have hwaits := keyWaits_of_keys hkeys
  obtain ⟨m, -, hm⟩ := hlive.ticks_run hrun
  rw [hown.ticks, h.uncounted, Board.uncounted] at hm
  have h0 : b'.devices.pics.master.irr.getLsbD 0 = false := by
    cases hirr : b'.devices.pics.master.irr.getLsbD 0 with
    | false => rfl
    | true =>
      rw [hirr, Bool.toNat_true] at hm
      omega
  refine ⟨es, b', hrun, hown.sent, hkernel.trans h.kernel, ?_, hawake.flag⟩
  refine ⟨hawake.serving, hawake.doing, fun j hj => ?_, ?_⟩
  · obtain rfl | rfl : j = 0 ∨ j = 1 := by omega
    · exact h0
    · exact hwaits
  · rw [hkeys.full, hwaits, hawake.doing]
    rfl

theorem reset_realises (hhalt : ∀ k e k', sys k e k' → halted k = false) (h : AtReset b)
    (hempty : b.devices.keys.full = false) (hs : Step sys halted b .cpu b₁)
    (hrun : Run sys b.kernel ks k) :
    ∃ es b', Run (Step sys halted) b₁ es b' ∧ sent es = scancodes ks ∧ b'.kernel = k ∧
      inHand b' = [] ∧ unread b' = [] := by
  obtain ⟨es, b₂, hrun₂, hsent, hkernel, hrest, hflag⟩ := (h.first hs).rests sys halted hempty
  obtain ⟨es', b', hrun', hsent', hk, hrest', -⟩ :=
    hrest.realises hhalt (fun _ => hflag) (hkernel.symm ▸ hrun)
  refine ⟨es ++ es', b', hrun₂.append hrun', ?_, hk, hrest'.keys⟩
  rw [sent, List.filterMap_append, ← sent, ← sent, hsent, hsent', List.nil_append]

/-! The driver with the shell behind it. -/

section
variable {ω : Type} {shell : ShellInput ω} {m : Machine ω} {b b₁ b' : Board (Machine ω)}

def shellHalted (m : Machine ω) : Bool := m.console.world.isNone

theorem machine_awake {m m' : Machine ω} (hs : Machine.Step shell m e m') :
    shellHalted m = false := by
  have hw : m.console.world ≠ none := by
    cases hs with
    | interrupt hw => exact hw
    | check hw => exact hw
    | read hw => exact hw
    | advance hw => exact hw
  cases h : m.console.world with
  | none => exact absurd h hw
  | some w => rw [shellHalted, h]; rfl

/-- Whatever the driver and the shell do with scancodes that come in at any time, they do with the
keyboard behind the controllers, and what they do there is no more than that. -/
theorem machine_realised (h : AtReset b) (hempty : b.devices.keys.full = false)
    (hs : Step (Machine.Step shell) shellHalted b .cpu b₁) (codes : List Byte) :
    (∃ ks, Run (Machine.Step shell) b.kernel ks m ∧ scancodes ks = codes) ↔
      ∃ es b', Run (Step (Machine.Step shell) shellHalted) b₁ es b' ∧ b'.kernel = m ∧
        sent es = codes ++ inHand b' ++ unread b' := by
  constructor
  · rintro ⟨ks, hks, rfl⟩
    obtain ⟨es, b', hrun, hsent, hkernel, hhand, hnone⟩ :=
      reset_realises (fun _ _ _ hs => machine_awake hs) h hempty hs hks
    refine ⟨es, b', hrun, hkernel, ?_⟩
    rw [hhand, hnone, hsent, List.append_nil, List.append_nil]
  · rintro ⟨es, b', hrun, rfl, hsent⟩
    have hreset := h.first hs
    obtain ⟨ks, hks, hcodes⟩ :=
      ((hreset.keysServed hempty).run (.inl hreset.booting) hrun).kernel
    rw [List.nil_append, hsent, List.append_assoc, List.append_assoc] at hcodes
    exact ⟨ks, hks, (List.append_cancel_right hcodes).symm⟩

/-- Lines typed at the keyboard come through the controllers, the driver and the loop to the shell.
-/
theorem board_lines_passed {ls : List TypedLine} {k : KeyboardState} {input : Nat → Byte} {w : ω}
    (h : AtReset b) (hstart : b.kernel = Machine.start k input w)
    (hempty : b.devices.keys.full = false) (hs : Step (RoomStep shell) shellHalted b .cpu b₁)
    (hrun : Run (Step (RoomStep shell) shellHalted) b₁ es b')
    (hsent : sent es = ls.flatMap TypedLine.codes) (hread : inHand b' = [] ∧ unread b' = [])
    (hdone : b'.kernel.console.world ≠ none →
      keyboardAvailable b'.kernel.session.keyboard = false) :
    (b'.kernel.console.passed, b'.kernel.console.world) =
        converse shell (some w) (ls.map TypedLine.line) ∧
      b'.kernel.console.written = dialogue shell (some w) (ls.map TypedLine.line) := by
  have hreset := h.first hs
  obtain ⟨ks, hks, hcodes⟩ := ((hreset.keysServed hempty).run (.inl hreset.booting) hrun).kernel
  rw [hread.1, hread.2, hsent] at hcodes
  rw [hstart] at hks
  refine lines_served hks ?_ hdone
  rw [← List.append_nil (scancodes ks), ← List.append_nil (scancodes ks ++ [])]
  exact hcodes.symm

end

/-! The driver by itself. -/

def neverHalted (_ : Session) : Bool := false

theorem codes_run (s : Session) (codes : List Byte) :
    ∃ s', Run Session.Step s (codes.map .interrupt) s' := by
  induction codes using List.reverseRecOn with
  | nil => exact ⟨s, .nil⟩
  | append_singleton codes c ih =>
    obtain ⟨s', hrun⟩ := ih
    rw [List.map_append]
    exact ⟨_, hrun.snoc (.interrupt s' c)⟩

theorem scancodes_codes (codes : List Byte) :
    scancodes (codes.map KeyEvent.interrupt) = codes := by
  simp [scancodes, List.filterMap_map, Function.comp_def, KeyEvent.scancode?]

theorem keyboard_works {b b₁ : Board Session} (h : AtReset b)
    (hs : Step Session.Step neverHalted b .cpu b₁) (hempty : b.devices.keys.full = false)
    (codes : List Byte) :
    ∃ es b', Run (Step Session.Step neverHalted) b₁ es b' ∧ sent es = codes ∧
      ∃ ks, Run Session.Step b.kernel ks b'.kernel ∧ scancodes ks = codes := by
  obtain ⟨s', hks⟩ := codes_run b.kernel codes
  obtain ⟨es, b', hrun, hsent, rfl, -⟩ := reset_realises (fun _ _ _ _ => rfl) h hempty hs hks
  rw [scancodes_codes] at hsent
  exact ⟨es, b', hrun, hsent, _, hks, scancodes_codes codes⟩

/-- Exactly where the controller is empty when its line is reset, the keyboard's scancodes can come
to the driver. A scancode that is in it then stays there for good: it is not read, no other one comes
in, and the driver is handed none. -/
theorem keyboard_works_iff {b b₁ : Board Session} (h : AtReset b)
    (hs : Step Session.Step neverHalted b .cpu b₁) :
    ((∀ codes, ∃ es b', Run (Step Session.Step neverHalted) b₁ es b' ∧ sent es = codes ∧
        ∃ ks, Run Session.Step b.kernel ks b'.kernel ∧ scancodes ks = codes) ↔
      b.devices.keys.full = false) ∧
    (b.devices.keys.full = true → ∀ es b', Run (Step Session.Step neverHalted) b₁ es b' →
      b'.devices.keys = b.devices.keys ∧ inHand b' = [] ∧ sent es = [] ∧
        ∃ ks, Run Session.Step b.kernel ks b'.kernel ∧ scancodes ks = []) := by
  have hstuck : b.devices.keys.full = true → ∀ es b', Run (Step Session.Step neverHalted) b₁ es b' →
      b'.devices.keys = b.devices.keys ∧ inHand b' = [] ∧ sent es = [] ∧
        ∃ ks, Run Session.Step b.kernel ks b'.kernel ∧ scancodes ks = [] := by
    intro hfull es b' hrun
    have hreset := h.first hs
    obtain ⟨hends, hkeys, hsent, ks, hks, hcodes⟩ :=
      (hreset.keysStuck hfull).run (.inl hreset.booting) hrun
    exact ⟨hkeys.trans hreset.keys, hends.inHand, hsent, ks, hreset.kernel ▸ hks, hcodes⟩
  refine ⟨⟨?_, keyboard_works h hs⟩, hstuck⟩
  intro hall
  cases hfull : b.devices.keys.full with
  | false => rfl
  | true =>
    obtain ⟨es, b', hrun, hsent, -⟩ := hall [0x1E]
    obtain ⟨-, -, hnone, -⟩ := hstuck hfull es b' hrun
    rw [hsent] at hnone
    cases hnone

/-- What is still on its way comes to its end by the processor's own steps: all that the keyboard
has sent has been handed to the driver then, and all ticks are counted. -/
theorem requests_are_answered {b b₁ b' : Board Session} (h : AtReset b)
    (hempty : b.devices.keys.full = false) (hs : Step Session.Step neverHalted b .cpu b₁)
    (hrun : Run (Step Session.Step neverHalted) b₁ es b') :
    ∃ es' b'', Run (Step Session.Step neverHalted) b' es' b'' ∧ Own es' ∧
      (∃ ks, Run Session.Step b.kernel ks b''.kernel ∧ scancodes ks = sent es) ∧
      b''.gTicks = b.gTicks + BitVec.ofNat 32 (ticks es) := by
  have hreset := h.first hs
  have hlive : Live b.devices 1 b₁ := .inl hreset.booting
  have hwake : Wakeful b₁ := by
    obtain ⟨_, _, -, hdoing, -⟩ := hreset.booting.writes
    intro hmain
    rw [hdoing] at hmain
    cases hmain
  obtain ⟨es', b'', hrun', hown, hawake, hrest⟩ :=
    (hlive.run hrun).rests neverHalted (fun s c => ⟨_, Session.Step.interrupt s c⟩)
      (hlive.wakeful hwake hrun)
  have hall := hrun.append hrun'
  have hkeys := (hreset.keysServed hempty).run hlive hall
  obtain ⟨ks, hks, hcodes⟩ := hkeys.kernel
  have hirr := Nat.add_eq_zero_iff.mp hrest
  have hwaits : keyWaits b'' = false := Bool.toNat_eq_zero.mp hirr.2
  have hfull : b''.devices.keys.full = false := by
    rw [hkeys.full, hwaits, hawake.doing]
    rfl
  obtain ⟨m, hg, hm⟩ := hlive.ticks_run hall
  refine ⟨es', b'', hrun', hown, ⟨ks, hks, ?_⟩, ?_⟩
  · have hhand : inHand b'' = [] := by rw [inHand, hawake.doing]
    have hnone : unread b'' = [] := by simp [unread, hfull]
    rw [hhand, hnone, List.append_nil, List.append_nil, List.nil_append, sent,
      List.filterMap_append, ← sent, ← sent, hown.sent, List.append_nil] at hcodes
    exact hcodes.symm
  · have hnone : uncounted b'' = 0 := by
      rw [Board.uncounted, hawake.doing, hirr.1]
      rfl
    have hticks : ticks (es ++ es') = ticks es := by
      rw [ticks, List.countP_append, ← ticks, ← ticks, hown.ticks, Nat.add_zero]
    rw [hnone, hreset.uncounted, hticks, Nat.add_zero, Nat.add_zero] at hm
    rw [hg, hreset.gTicks, hm]

/-! The devices as firmware may leave them: other vectors, and a tick that waits. -/

def firmwareDevices : Devices :=
  { pics :=
      ⟨⟨0x01, 0, 0xB8, 0x08, 4, 1, false, true, none⟩, ⟨0, 0, 0x8E, 0x70, 2, 1, false, true, none⟩⟩
    pit := ⟨3, 3, none, 0⟩
    keys := ⟨0x9C, false⟩ }

def firmwareBoard (k : σ) : Board σ :=
  ⟨firmwareDevices, false, .init ((initWrites 0x8E).getD []), [], 0, k⟩

theorem firmware_atReset (k : σ) : AtReset (firmwareBoard k) := ⟨⟨_, rfl, rfl⟩, rfl, rfl⟩

theorem firmware_first (sys : σ → KeyEvent → σ → Prop) (halted : σ → Bool) (k : σ) :
    ∃ b₁, Step sys halted (firmwareBoard k) .cpu b₁ := ⟨_, .write rfl⟩

theorem interrupts_never_stray_firmware : ∃ (es : List BoardEvent) (b' : Board Session),
    sent es = [0x1E] ∧ (((∃ ws, b'.doing = .init ws) ∧ b'.interruptFlag = false ∧
      b'.interrupted = []) ∨ Serving b') := by
  have hreset := firmware_atReset (Session.start restKeyboard)
  obtain ⟨b₁, hs⟩ := firmware_first Session.Step neverHalted (Session.start restKeyboard)
  obtain ⟨es, b', hrun, hsent, -⟩ := (keyboard_works hreset hs rfl) [0x1E]
  exact ⟨_, b', hsent, interrupts_never_stray hreset ((Run.single hs).append hrun)⟩

theorem scancodes_reach_driver_firmware : ∃ (es : List BoardEvent) (b' : Board Session),
    sent es = [0x1E] ∧ ∃ ks, Run Session.Step (Session.start restKeyboard) ks b'.kernel ∧
      sent es = scancodes ks ++ inHand b' ++ unread b' := by
  have hreset := firmware_atReset (Session.start restKeyboard)
  obtain ⟨b₁, hs⟩ := firmware_first Session.Step neverHalted (Session.start restKeyboard)
  obtain ⟨es, b', hrun, hsent, -⟩ := (keyboard_works hreset hs rfl) [0x1E]
  exact ⟨es, b', hsent, scancodes_reach_driver hreset rfl hs hrun⟩

/-- Firmware that has left the break of Enter in the controller. -/
def staleBoard (k : σ) : Board σ :=
  { firmwareBoard k with devices := { firmwareDevices with keys := ⟨0x9C, true⟩ } }

theorem keyboard_works_iff_firmware :
    (∃ b₁, Step Session.Step neverHalted (firmwareBoard (Session.start restKeyboard)) .cpu b₁ ∧
      ∀ codes, ∃ es b', Run (Step Session.Step neverHalted) b₁ es b' ∧ sent es = codes ∧
        ∃ ks, Run Session.Step (Session.start restKeyboard) ks b'.kernel ∧ scancodes ks = codes) ∧
    ∃ b₁, Step Session.Step neverHalted (staleBoard (Session.start restKeyboard)) .cpu b₁ ∧
      ∀ es b', Run (Step Session.Step neverHalted) b₁ es b' → b'.devices.keys = ⟨0x9C, true⟩ := by
  constructor
  · obtain ⟨b₁, hs⟩ := firmware_first Session.Step neverHalted (Session.start restKeyboard)
    exact ⟨b₁, hs, (keyboard_works_iff (firmware_atReset _) hs).1.mpr rfl⟩
  · have hs : ∃ b₁, Step Session.Step neverHalted (staleBoard (Session.start restKeyboard)) .cpu b₁ :=
      ⟨_, .write rfl⟩
    obtain ⟨b₁, hs⟩ := hs
    have hreset : AtReset (staleBoard (Session.start restKeyboard)) := ⟨⟨_, rfl, rfl⟩, rfl, rfl⟩
    exact ⟨b₁, hs, fun es b' hrun => ((keyboard_works_iff hreset hs).2 rfl es b' hrun).1⟩

theorem ticks_counted_firmware : ∃ (b' : Board Session) (m : Nat),
    b'.gTicks = 0 + BitVec.ofNat 32 m ∧ m + uncounted b' = ticks [.tick, .missedTick] := by
  obtain ⟨b₁, hs⟩ := firmware_first Session.Step neverHalted (Session.start restKeyboard)
  have hreset := (firmware_atReset (Session.start restKeyboard)).first hs
  have htick : Step Session.Step neverHalted b₁ .tick _ := .tick (by rw [hreset.irr]; rfl)
  have hmissed : Step Session.Step neverHalted _ .missedTick _ :=
    .missedTick (b := { b₁ with devices := b₁.devices.edge 0 })
      ((edge_irr b₁.devices 0 0).trans (Bool.or_true _))
  exact ⟨_, ticks_counted (firmware_atReset _) hs ((Run.single htick).snoc hmissed)⟩

theorem requests_are_answered_firmware : ∃ (b b'' : Board Session) (es' : List BoardEvent),
    Run (Step Session.Step neverHalted) b es' b'' ∧ Own es' ∧
      (∃ ks, Run Session.Step (Session.start restKeyboard) ks b''.kernel ∧ scancodes ks = [0x1E]) ∧
      b''.gTicks = 0 + BitVec.ofNat 32 (ticks [.key 0x1E]) := by
  obtain ⟨b₁, hs⟩ := firmware_first Session.Step neverHalted (Session.start restKeyboard)
  have hreset := (firmware_atReset (Session.start restKeyboard)).first hs
  have hkey : Step Session.Step neverHalted b₁ (.key 0x1E) _ := .key (by rw [hreset.keys]; rfl)
  obtain ⟨es', b'', hall⟩ := requests_are_answered (firmware_atReset _) rfl hs (.single hkey)
  exact ⟨_, b'', es', hall⟩

theorem machine_realised_greeting : ∃ (m : Machine Unit) (es : List BoardEvent)
    (b' : Board (Machine Unit)), b'.kernel = m ∧ m.console.passed = [text "Hi!"] ∧
      sent es = [greeting].flatMap TypedLine.codes ++ inHand b' ++ unread b' := by
  obtain ⟨ks, m, hrun, hcodes, hdone⟩ := greeting_run
  have hpassed := congrArg Prod.fst (lines_served hrun hcodes hdone).1
  obtain ⟨b₁, hs⟩ := firmware_first (Machine.Step echoShell) shellHalted
    (Machine.start restKeyboard (fun _ => 0) ())
  obtain ⟨es, b', -, hkernel, hsent⟩ :=
    (machine_realised (firmware_atReset _) rfl hs _).mp ⟨ks, hrun.mono fun _ _ _ h => h.2, hcodes⟩
  exact ⟨m, es, b', hkernel, hpassed, hsent⟩

theorem board_lines_passed_greeting : ∃ b' : Board (Machine Unit),
    (b'.kernel.console.passed, b'.kernel.console.world) = ([text "Hi!"], some ()) ∧
      b'.kernel.console.written = puts (text "Hi!\nHi!\n> ") := by
  obtain ⟨ks, m, hks, hcodes, hdone⟩ := greeting_run
  obtain ⟨b₁, hs⟩ := firmware_first (RoomStep echoShell) shellHalted
    (Machine.start restKeyboard (fun _ => 0) ())
  obtain ⟨es, b', hrun, hsent, rfl, hread⟩ :=
    reset_realises (fun _ _ _ h => machine_awake h.2) (firmware_atReset _) rfl hs hks
  obtain ⟨hpassed, hwritten⟩ :=
    board_lines_passed (firmware_atReset _) rfl rfl hs hrun (hsent.trans hcodes) hread hdone
  exact ⟨b', hpassed, hwritten⟩

end Kernix.Proofs
