import Kernix.Calc.Arithmetic

namespace Kernix.Calc
open Library

/-! Sine, cosine and arctangent in fixed point. No step may leave the range of `int`. -/

def fp : U32 := 10000
def piFp : U32 := 31416
def halfPiFp : U32 := 15708
def twoPiFp : U32 := 62832

/-! `print_scaled_result`. -/

/-- The loop over the digits behind the point. A turn takes a digit off `p`, which has ten at
most. -/
def fracDigits : Nat → U32 → U32 → Exact (List Byte)
  | 0, _, _ => .error .unfinished
  | fuel + 1, p, fracPart =>
    if 0 < p.toInt then do
      let digit ← divInt fracPart p
      let c ← addInt 0x30 digit
      let fracPart ← modInt fracPart p
      let p ← divInt p 10
      return c.setWidth 8 :: (← fracDigits fuel p fracPart)
    else return []

def printScaledResult (scaled scale : U32) : Exact (List Byte) := do
  let (sign, scaled) ←
    if scaled.toInt < 0 then (text "-", ·) <$> negInt scaled else pure ([], scaled)
  let intPart ← divInt scaled scale
  let fracPart ← modInt scaled scale
  let numeral ← written (printInt32 intPart)
  let digits ← fracDigits 11 (← divInt scale 10) fracPart
  return text "Result: " ++ sign ++ numeral ++ text "." ++ digits ++ text "\n"

/-! Sine and cosine. -/

def degToRadFp (degrees : U32) : Exact U32 := do
  divInt (← mulInt degrees piFp) 180

/-- The turns the loops of `normalize_rad_fp` take at most: one takes 62832 off an `int`. -/
def normalizeTurns : Nat := 34180

def subtractTurns : Nat → U32 → Exact U32
  | 0, _ => .error .unfinished
  | fuel + 1, x =>
    if piFp.toInt < x.toInt then do subtractTurns fuel (← subInt x twoPiFp) else return x

def addTurns : Nat → U32 → Exact U32
  | 0, _ => .error .unfinished
  | fuel + 1, x =>
    if x.toInt < -piFp.toInt then do addTurns fuel (← addInt x twoPiFp) else return x

def normalizeRadFp (x : U32) : Exact U32 := do
  addTurns normalizeTurns (← subtractTurns normalizeTurns x)

/-- The body of the loops of `sin_fp` and `cos_fp`, over `term` and `sum`. -/
def seriesStep (denom : U32 → Exact U32) (x : U32) (s : U32 × U32) (k : U32) :
    Exact (U32 × U32) := do
  let denom ← denom k
  let term ← divInt (← mulInt (← negInt (← divInt (← mulInt s.1 x) fp)) x) fp
  let term ← divInt term denom
  return (term, ← addInt s.2 term)

/-- `(2 * k) * (2 * k + 1)` -/
def sinDenom (k : U32) : Exact U32 := do
  mulInt (← mulInt 2 k) (← addInt (← mulInt 2 k) 1)

/-- `(2 * k - 1) * (2 * k)` -/
def cosDenom (k : U32) : Exact U32 := do
  mulInt (← subInt (← mulInt 2 k) 1) (← mulInt 2 k)

/-- `sin_fp` of an angle in range. -/
def sinSeries (x : U32) : Exact U32 :=
  Prod.snd <$> [1, 2, 3, 4, 5, 6].foldlM (seriesStep sinDenom x) (x, x)

def cosSeries (x : U32) : Exact U32 :=
  Prod.snd <$> [1, 2, 3, 4, 5, 6].foldlM (seriesStep cosDenom x) (fp, fp)

def sinFp (x : U32) : Exact U32 := do sinSeries (← normalizeRadFp x)

def cosFp (x : U32) : Exact U32 := do cosSeries (← normalizeRadFp x)

/-- What `calc_sin` has printed. -/
def sinResult (angle : U32) : Exact U32 := do sinFp (← degToRadFp angle)

def cosResult (angle : U32) : Exact U32 := do cosFp (← degToRadFp angle)

def calcSin (angle : U32) : Exact (List Byte) := do printScaledResult (← sinResult angle) fp

def calcCos (angle : U32) : Exact (List Byte) := do printScaledResult (← cosResult angle) fp

/-! The arctangent. -/

/-- The body of the loop of `atan_fp_core`, over `zpow` and `result`. -/
def atanStep (z : U32) (s : U32 × U32) (n : U32) : Exact (U32 × U32) := do
  let zpow ← divInt (← mulInt (← divInt (← mulInt s.1 z) fp) z) fp
  let term ← divInt zpow (← addInt (← mulInt 2 n) 1)
  let result ← if n &&& 1 ≠ 0 then subInt s.2 term else addInt s.2 term
  return (zpow, result)

def atanSeries (z : U32) : Exact U32 :=
  Prod.snd <$> [1, 2, 3, 4, 5, 6, 7, 8].foldlM (atanStep z) (z, z)

/-- `depth` bounds the recursion, which is on a number below `FP` and goes no deeper. -/
def atanFpCore : Nat → U32 → Exact U32
  | 0, _ => .error .unfinished
  | depth + 1, z => do
    let neg := decide (z.toInt < 0)
    let z ← if neg then negInt z else pure z
    let result ←
      if z.toInt ≤ fp.toInt then atanSeries z
      else do
        let inv ← divInt (← mulInt fp fp) z
        subInt halfPiFp (← atanFpCore depth inv)
    if neg then negInt result else return result

def radToDegFp (radiansFp : U32) : Exact U32 := do
  divInt (← mulInt radiansFp 180) piFp

/-- What `calc_atan` has printed. -/
def atanResult (value : U32) : Exact U32 := do
  let z ← mulInt value fp
  radToDegFp (← atanFpCore 2 z)

def calcAtan (value : U32) : Exact (List Byte) := do printScaledResult (← atanResult value) fp

/-- What `calc_actg` has printed. -/
def actgResult (value : U32) : Exact U32 := do
  if value = 0 then return 900000
  subInt 900000 (← atanResult value)

def calcActg (value : U32) : Exact (List Byte) := do printScaledResult (← actgResult value) fp

end Kernix.Calc
