import Kernix.Library.Devices
import Kernix.Interrupts.Idt

namespace Kernix.Interrupts
open Library

def pitCommandPort : Port := 0x43
def pitChannel0Port : Port := 0x40
def pitBaseFrequency : U32 := 1193182
def pitTargetHz : U32 := 100

def pic1Command : Port := 0x20
def pic1Data : Port := 0x21
def pic2Command : Port := 0xA0
def pic2Data : Port := 0xA1

def picEoi : Byte := 0x20

def icw1Icw4 : Byte := 0x01
def icw1Init : Byte := 0x10
def icw48086 : Byte := 0x01

/-- The port of the keyboard controller. -/
def keyPort : Port := 0x60

/-- The devices behind the ports of `interrupts.cpp`. -/
structure Devices where
  pics : Pics
  pit : Pit
  keys : KeyController

namespace Devices

def outb (d : Devices) (port : Port) (value : Byte) : Devices :=
  if port = pic1Command then
    { d with pics := { d.pics with master := d.pics.master.command value } }
  else if port = pic1Data then
    { d with pics := { d.pics with master := d.pics.master.data value } }
  else if port = pic2Command then
    { d with pics := { d.pics with slave := d.pics.slave.command value } }
  else if port = pic2Data then
    { d with pics := { d.pics with slave := d.pics.slave.data value } }
  else if port = pitCommandPort then { d with pit := d.pit.control value }
  else if port = pitChannel0Port then { d with pit := d.pit.write value }
  else d

def inb (d : Devices) (port : Port) : Byte × Devices :=
  if port = keyPort then
    let (c, keys) := d.keys.read
    (c, { d with keys := keys })
  else if port = pic1Data then (d.pics.master.imr, d)
  else if port = pic2Data then (d.pics.slave.imr, d)
  else (0xFF, d)

def edge (d : Devices) (line : Fin 16) : Devices := { d with pics := d.pics.edge line }

/-- The keyboard sends a scancode: the controller takes it, and raises line 1. -/
def keyed (d : Devices) (c : Byte) : Devices := { d with keys := ⟨c, true⟩ }.edge 1

end Devices

abbrev PortWrite := Port × Byte

def ioWait : PortWrite := (0x80, 0)

/-- The writes of `pic_remap`, after it has read `mask2`. -/
def picRemap (offset1 offset2 mask2 : Byte) : List PortWrite :=
  [ (pic1Command, icw1Init ||| icw1Icw4), ioWait,
    (pic2Command, icw1Init ||| icw1Icw4), ioWait,
    (pic1Data, offset1), ioWait,
    (pic2Data, offset2), ioWait,
    (pic1Data, 4), ioWait,
    (pic2Data, 2), ioWait,
    (pic1Data, icw48086), ioWait,
    (pic2Data, icw48086), ioWait,
    (pic1Data, 0xFC),
    (pic2Data, mask2)]

/-- The writes of `pit_init`; a frequency of 0 traps in the division. -/
def pitInit (frequencyHz : U32) : Option (List PortWrite) :=
  if frequencyHz = 0 then none
  else
    let divisor := pitBaseFrequency / frequencyHz
    some
      [ (pitCommandPort, 0x36),
        (pitChannel0Port, (divisor &&& 0xFF).setWidth 8),
        (pitChannel0Port, ((divisor >>> 8) &&& 0xFF).setWidth 8)]

/-- The writes of `interrupts_init`, after `pic_remap` has read `mask2`. -/
def initWrites (mask2 : Byte) : Option (List PortWrite) := do
  let ws ← pitInit pitTargetHz
  return picRemap irq0Vector 40 mask2 ++ ws

end Kernix.Interrupts
