import Kernix.Interrupts.Controllers
import Kernix.Library.Bits

namespace Kernix.Proofs
open Library Interrupts

variable {d d' : Devices} {p : Pic} {ps ps' : Pics} {vector : Byte}

/-! One controller. -/

theorem irr_raise (irr : Byte) (i j : Fin 8) :
    (irr ||| lineBit i).getLsbD j.val = (irr.getLsbD j.val || decide (i = j)) := by
  have hbit : ∀ i j : Fin 8, (lineBit i).getLsbD j.val = decide (i = j) := by decide
  rw [BitVec.getLsbD_or, hbit]

theorem irr_serve (irr : Byte) (i j : Fin 8) :
    (irr &&& ~~~lineBit i).getLsbD j.val = (irr.getLsbD j.val && !decide (i = j)) := by
  have hbit : ∀ i j : Fin 8, (~~~lineBit i).getLsbD j.val = !decide (i = j) := by decide
  rw [BitVec.getLsbD_and, hbit]

/-- With all lines but two masked, the first of the two that is up. -/
theorem firstLine_masked (irr : Byte) : firstLine (irr &&& ~~~(0xFC : Byte)) =
    if irr.getLsbD 0 then some 0 else if irr.getLsbD 1 then some 1 else none := by
  revert irr
  decide

/-- The first controller takes interrupts of its first two lines, as vectors 32 and 33. -/
structure Ready (p : Pic) : Prop where
  waits : p.waits = none
  icw4 : p.icw4 = 1
  base : p.base = 32
  imr : p.imr = 0xFC

/-- Line `i` has been acknowledged. -/
structure Served (i : Fin 8) (p p' : Pic) : Prop extends Ready p' where
  isr : p'.isr = lineBit i
  irr : ∀ j : Fin 8, j < 2 → p'.irr.getLsbD j.val = (p.irr.getLsbD j.val && !decide (i = j))

theorem cascaded_irr (ps : Pics) {j : Fin 8} (hj : j < 2) :
    ps.cascaded.irr.getLsbD j.val = ps.master.irr.getLsbD j.val := by
  unfold Pics.cascaded
  split
  · have hne : (2 : Fin 8) ≠ j := by omega
    rw [Pic.raise, irr_raise, decide_eq_false hne, Bool.or_false]
  · rfl

theorem Ready.cascaded (h : Ready ps.master) : Ready ps.cascaded := by
  unfold Pics.cascaded
  split
  · exact ⟨h.waits, h.icw4, h.base, h.imr⟩
  · exact h

theorem cascaded_isr (ps : Pics) : ps.cascaded.isr = ps.master.isr := by
  unfold Pics.cascaded
  split
  · rfl
  · rfl

theorem Ready.asks (h : Ready ps.master) (hisr : ps.master.isr = 0) :
    ps.cascaded.asks =
      if ps.master.irr.getLsbD 0 then some 0
      else if ps.master.irr.getLsbD 1 then some 1 else none := by
  have h0 := cascaded_irr ps (show (0 : Fin 8) < 2 by decide)
  have h1 := cascaded_irr ps (show (1 : Fin 8) < 2 by decide)
  have hnone : firstLine 0 = none := by decide
  rw [Pic.asks, cascaded_isr, hisr, hnone, h.cascaded.imr, firstLine_masked]
  simp only [Fin.val_zero, Fin.val_one] at h0 h1
  rw [h0, h1]
  cases ps.master.irr.getLsbD 0 <;> cases ps.master.irr.getLsbD 1 <;> rfl

theorem Ready.serve (h : Ready ps.master) (hisr : ps.master.isr = 0) (i : Fin 8) :
    Served i ps.master (ps.cascaded.serve i) := by
  have hc := h.cascaded
  refine ⟨⟨hc.waits, hc.icw4, hc.base, hc.imr⟩, ?_, fun j hj => ?_⟩
  · simp [Pic.serve, hc.icw4, cascaded_isr, hisr]
  · rw [Pic.serve, irr_serve, cascaded_irr ps hj]

/-- With nothing in service, the first of the two lines is acknowledged. -/
theorem Ready.acknowledge (h : Ready ps.master) (hisr : ps.master.isr = 0) :
    ps.acknowledge =
      if ps.master.irr.getLsbD 0 then some (irq0Vector, { ps with master := ps.cascaded.serve 0 })
      else if ps.master.irr.getLsbD 1 then
        some (irq1Vector, { ps with master := ps.cascaded.serve 1 })
      else none := by
  have hvector : ∀ i : Fin 8, ps.master.vector i = 32 ||| BitVec.ofNat 8 i.val := fun i => by
    rw [Pic.vector, h.base]
  rw [Pics.acknowledge, h.waits, h.icw4, h.asks hisr]
  cases ps.master.irr.getLsbD 0 <;> cases ps.master.irr.getLsbD 1 <;> simp [hvector] <;> decide

/-- The vectors that come are those of the two lines. -/
theorem Ready.acknowledge_cases (h : Ready ps.master) (hisr : ps.master.isr = 0)
    (ha : ps.acknowledge = some (vector, ps')) :
    (vector = irq0Vector ∧ ps.master.irr.getLsbD 0 = true ∧ Served 0 ps.master ps'.master) ∨
      (vector = irq1Vector ∧ ps.master.irr.getLsbD 0 = false ∧
        ps.master.irr.getLsbD 1 = true ∧ Served 1 ps.master ps'.master) := by
  rw [h.acknowledge hisr] at ha
  split at ha
  next h0 =>
    obtain ⟨rfl, rfl⟩ := Prod.mk.inj (Option.some.inj ha)
    exact .inl ⟨rfl, h0, h.serve hisr 0⟩
  next h0 =>
    split at ha
    next h1 =>
      obtain ⟨rfl, rfl⟩ := Prod.mk.inj (Option.some.inj ha)
      exact .inr ⟨rfl, by simpa using h0, h1, h.serve hisr 1⟩
    next => cases ha

theorem endOfInterrupt_served {i : Fin 8} (h : p.isr = lineBit i) :
    p.endOfInterrupt = { p with isr := 0 } := by
  have hfirst : ∀ i : Fin 8, firstLine (lineBit i) = some i := by decide
  have hclear : ∀ i : Fin 8, lineBit i &&& ~~~lineBit i = 0 := by decide
  rw [Pic.endOfInterrupt, h, hfirst]
  simp only [hclear]

/-- What `outb(PIC1_COMMAND, PIC_EOI)` does while one line is in service. -/
theorem outb_eoi {i : Fin 8} (h : d.pics.master.isr = lineBit i) :
    d.outb pic1Command picEoi =
      { d with pics := { d.pics with master := { d.pics.master with isr := 0 } } } := by
  have hcommand : d.pics.master.command picEoi = d.pics.master.endOfInterrupt := rfl
  rw [Devices.outb, if_pos rfl, hcommand, endOfInterrupt_served h]

/-! The writes of the initialisation, between which lines may be raised. -/

/-- A controller without what its lines have brought. -/
def quiet (p : Pic) : Pic := { p with irr := 0 }

theorem quiet_command (p : Pic) (v : Byte) : quiet (p.command v) = quiet ((quiet p).command v) := by
  unfold Pic.command
  split
  · rfl
  split
  · have hisr : (quiet p).isr = p.isr := rfl
    rw [Pic.endOfInterrupt, Pic.endOfInterrupt, hisr]
    cases firstLine p.isr with
    | none => rfl
    | some i => rfl
  · rfl

theorem quiet_data (p : Pic) (v : Byte) : quiet (p.data v) = quiet ((quiet p).data v) := by
  have hwaits : (quiet p).waits = p.waits := rfl
  rw [Pic.data, Pic.data, hwaits]
  cases p.waits with
  | none => rfl
  | some w => cases w <;> rfl

/-- The devices without what their lines have brought. -/
def settled (d : Devices) : Devices :=
  { pics := ⟨quiet d.pics.master, quiet d.pics.slave⟩, pit := d.pit, keys := ⟨0, false⟩ }

theorem settled_edge (d : Devices) (line : Fin 16) : settled (d.edge line) = settled d := by
  unfold Devices.edge Pics.edge
  split
  · rfl
  · rfl

theorem settled_keyed (d : Devices) (c : Byte) : settled (d.keyed c) = settled d :=
  settled_edge { d with keys := ⟨c, true⟩ } 1

/-- What is written is taken the same, whatever the lines have brought. -/
theorem settled_outb (d : Devices) (port : Port) (value : Byte) :
    settled (d.outb port value) = settled ((settled d).outb port value) := by
  unfold Devices.outb
  split
  · simp only [settled, quiet_command d.pics.master]
    rfl
  split
  · simp only [settled, quiet_data d.pics.master]
    rfl
  split
  · simp only [settled, quiet_command d.pics.slave]
    rfl
  split
  · simp only [settled, quiet_data d.pics.slave]
    rfl
  split
  · rfl
  split
  · rfl
  · rfl

def outs (d : Devices) (ws : List PortWrite) : Devices := ws.foldl (fun d w => d.outb w.1 w.2) d

theorem outs_concat (d : Devices) (ws : List PortWrite) (port : Port) (value : Byte) :
    outs d (ws ++ [(port, value)]) = (outs d ws).outb port value := by
  rw [outs, List.foldl_append]
  rfl

theorem settled_outs {d d' : Devices} (h : settled d = settled d') (port : Port) (value : Byte) :
    settled (d.outb port value) = settled (d'.outb port value) := by
  rw [settled_outb, h, ← settled_outb]

theorem initWrites_eq (mask2 : Byte) : initWrites mask2 = some (picRemap irq0Vector 40 mask2 ++
    [(pitCommandPort, 0x36), (pitChannel0Port, 0x9B), (pitChannel0Port, 0x2E)]) := rfl

/-- Whatever the devices were before, they are ready after the writes. -/
theorem outs_init (d : Devices) (mask2 : Byte) {ws : List PortWrite}
    (hws : initWrites mask2 = some ws) :
    settled (outs d ws) =
      { pics :=
          ⟨⟨0, 0, 0xFC, 32, 4, 1, false, true, none⟩, ⟨0, 0, mask2, 40, 2, 1, false, true, none⟩⟩
        pit := ⟨3, 3, none, 11931⟩
        keys := ⟨0, false⟩ } := by
  rw [initWrites_eq] at hws
  obtain rfl := Option.some.inj hws
  rfl

/-! The timer, for any frequency. -/

/-- The two bytes that are written make up the low half. -/
theorem divisor_bytes (x : U32) :
    ((x >>> 8) &&& 0xFF).setWidth 8 ++ (x &&& 0xFF).setWidth 8 = x.setWidth 16 := by
  have hhigh : ((x >>> 8) &&& 0xFF).setWidth 8 = x.extractLsb' 8 8 := shift_and_eq_extract x 8 8
  have hlow : (x &&& 0xFF).setWidth 8 = x.extractLsb' 0 8 := by
    have := shift_and_eq_extract x 0 8
    rwa [BitVec.ushiftRight_zero] at this
  rw [hhigh, hlow]
  apply BitVec.eq_of_getLsbD_eq
  intro i hi
  simp only [BitVec.getLsbD_append, BitVec.getLsbD_extractLsb', BitVec.getLsbD_setWidth]
  by_cases h : i < 8
  · simp [h, hi]
  · have hi8 : 8 + (i - 8) = i := by omega
    have hi8' : i - 8 < 8 := by omega
    simp [h, hi, hi8, hi8']

/-- The count is what 16 bits keep of the divisor. -/
theorem outs_pitInit (d : Devices) {hz : U32} {ws : List PortWrite} (h : pitInit hz = some ws) :
    (outs d ws).pit = ⟨3, 3, none, (pitBaseFrequency / hz).setWidth 16⟩ := by
  unfold pitInit at h
  split at h
  · cases h
  · obtain rfl := Option.some.inj h
    rw [← divisor_bytes]
    rfl

/-- The whole clocks of one tick at `hz`. -/
theorem period_iff {hz : Nat} (hpos : 0 < hz) (n : Nat) :
    (n * hz ≤ 1193182 ∧ 1193182 < (n + 1) * hz) ↔ n = 1193182 / hz := by
  rw [eq_comm, Nat.div_eq_iff hpos, Nat.add_mul, Nat.one_mul]
  omega

/-- The period of the mode that `pit_init` sets, by its count. -/
theorem period_mode3 (count : BitVec 16) (n : Nat) :
    Pit.period ⟨3, 3, none, count⟩ = some n ↔
      count.toNat ≠ 1 ∧ n = if count.toNat = 0 then 65536 else count.toNat := by
  have hone : count = 1 ↔ count.toNat = 1 := BitVec.toNat_inj.symm
  have hzero : count = 0 ↔ count.toNat = 0 := BitVec.toNat_inj.symm
  simp only [Pit.period, hone, hzero, (by decide : (3 : BitVec 3).getLsbD 1 = true),
    Bool.true_eq_false, false_or]
  by_cases h1 : count.toNat = 1
  · simp [h1]
  · rw [if_neg h1]
    split <;> simp [h1, eq_comm]

/-- Whatever the timer was set to, `pit_init` makes it tick at the frequency it is given, or as
little above it as a whole number of clocks allows, exactly from 19 Hz to half the clock. -/
theorem pitInit_ticks (d : Devices) {hz : U32} {ws : List PortWrite} (h : pitInit hz = some ws) :
    (∃ n, (outs d ws).pit.period = some n ∧ n * hz.toNat ≤ 1193182 ∧
        1193182 < (n + 1) * hz.toNat) ↔ 19 ≤ hz.toNat ∧ hz.toNat ≤ 596591 := by
  have hpos : 0 < hz.toNat := by
    rcases Nat.eq_zero_or_pos hz.toNat with hzero | hpos
    · have : hz = 0 := BitVec.eq_of_toNat_eq hzero
      rw [this] at h
      cases h
    · exact hpos
  have hdiv : (pitBaseFrequency / hz).toNat = 1193182 / hz.toNat := BitVec.toNat_udiv
  have hcount : ((pitBaseFrequency / hz).setWidth 16).toNat = 1193182 / hz.toNat % 65536 := by
    rw [BitVec.toNat_setWidth, hdiv]
  simp only [outs_pitInit d h, period_mode3, period_iff hpos, hcount]
  constructor
  · rintro ⟨n, ⟨hone, hn⟩, hsame⟩
    rw [hsame] at hn
    constructor
    · by_contra hlow
      have hlarge : 1193182 / 18 ≤ 1193182 / hz.toNat := Nat.div_le_div_left (by omega) hpos
      split at hn <;> omega
    · by_contra hhigh
      have hsmall : 1193182 / hz.toNat ≤ 1193182 / 596592 := Nat.div_le_div_left (by omega) (by decide)
      split at hn <;> omega
  · rintro ⟨hlow, hhigh⟩
    have hle : 1193182 / hz.toNat ≤ 1193182 / 19 := Nat.div_le_div_left hlow (by decide)
    have htwo : 1193182 / 596591 ≤ 1193182 / hz.toNat := Nat.div_le_div_left hhigh hpos
    refine ⟨_, ⟨by omega, ?_⟩, rfl⟩
    rw [if_neg (by omega)]
    omega

/-- Devices that nothing has been written to. -/
def coldDevices : Devices :=
  { pics := ⟨⟨0, 0, 0, 0, 0, 0, false, false, none⟩, ⟨0, 0, 0, 0, 0, 0, false, false, none⟩⟩
    pit := ⟨0, 0, none, 0⟩
    keys := ⟨0, false⟩ }

theorem pitInit_ticks_kernel : ∃ ws n, pitInit pitTargetHz = some ws ∧
    (outs coldDevices ws).pit.period = some n ∧ n * 100 ≤ 1193182 ∧ 1193182 < (n + 1) * 100 := by
  have hwrites : ∃ ws, pitInit pitTargetHz = some ws := ⟨_, rfl⟩
  obtain ⟨ws, hws⟩ := hwrites
  obtain ⟨n, hperiod, hbelow, habove⟩ := (pitInit_ticks coldDevices hws).mpr (by decide)
  exact ⟨ws, n, hws, hperiod, hbelow, habove⟩

/-- Only the first write clears what waits at the first controller. -/
theorem outb_irr {port : Port} (h : port ≠ pic1Command) (value : Byte) :
    (d.outb port value).pics.master.irr = d.pics.master.irr ∧
      (d.outb port value).keys = d.keys := by
  have hdata : ∀ p : Pic, ∀ v, (p.data v).irr = p.irr := by
    intro p v
    unfold Pic.data
    cases p.waits with
    | none => rfl
    | some w => cases w <;> rfl
  unfold Devices.outb
  rw [if_neg h]
  split
  · exact ⟨hdata _ _, rfl⟩
  split
  · exact ⟨rfl, rfl⟩
  split
  · exact ⟨rfl, rfl⟩
  split
  · exact ⟨rfl, rfl⟩
  split
  · exact ⟨rfl, rfl⟩
  · exact ⟨rfl, rfl⟩

theorem edge_irr (d : Devices) (line : Fin 16) (j : Fin 8) :
    (d.edge line).pics.master.irr.getLsbD j.val =
      (d.pics.master.irr.getLsbD j.val || decide (line.val = j.val)) := by
  unfold Devices.edge Pics.edge
  split
  next h =>
    have hline : (⟨line.val, h⟩ : Fin 8) = j ↔ line.val = j.val := Fin.ext_iff
    rw [← decide_eq_decide.mpr hline]
    exact irr_raise d.pics.master.irr ⟨line.val, h⟩ j
  next h =>
    have hne : line.val ≠ j.val := by omega
    simp [hne]

end Kernix.Proofs
