/-
`base64.h` again, with every sum and every shift of the accumulator as a step that can
fail.

The definitions of `Server/Authenticate.lean` let the accumulator wrap, as it does where
the compiler puts it in a register of 32 bits.  The language does not say so: a shift
or a sum of an `int` that leaves its range has no meaning.
-/
import JustEnough.Lib.Accumulator
import JustEnough.Server.Authenticate

namespace JustEnough

namespace Checked

/-- `alphabet[(val >> valb) & 0x3F]` -/
def base64Char (val valb : Int) : Except IntFault UInt8 := do
  let shifted ← CInt.shiftRight val valb
  return base64Alphabet.getD (shifted % 64).toNat 0

/-- The `while (valb >= 0)` loop of `base64_encode`. -/
def base64Emit (val valb : Int) (out : Str) : Except IntFault (Int × Str) := do
  if 0 ≤ valb then
    let c ← base64Char val valb
    base64Emit val (valb - 6) (out ++ [c])
  else return (valb, out)
termination_by (valb + 6).toNat

/-- The loop over the input. -/
def base64EncodeLoop : Str → Int → Int → Str → Except IntFault (Int × Int × Str)
  | [], val, valb, out => return (val, valb, out)
  | c :: cs, val, valb, out => do
    let val ← CInt.push val 8 c.toNat
    let emitted ← base64Emit val (valb + 8) out
    base64EncodeLoop cs val emitted.1 emitted.2

/-- The character for the bits that are left. -/
def base64Rest (val valb : Int) (out : Str) : Except IntFault Str := do
  if valb > -6 then
    let shifted ← CInt.shiftLeft val 8
    let c ← base64Char shifted (valb + 8)
    return out ++ [c]
  else return out

/-- Filling up with `=` signs does not touch the accumulator. -/
def base64Encode (input : Str) : Except IntFault Str := do
  let (val, valb, out) ← base64EncodeLoop input 0 (-6) []
  let out ← base64Rest val valb out
  return base64Pad out

/-- The loop of `base64_decode`. -/
def base64DecodeLoop : Str → Int → Int → Str → Except IntFault Str
  | [], _, _, out => return out
  | c :: cs, val, valb, out => do
    if base64Table c = -1 then return out
    else
      let val ← CInt.push val 6 (base64Table c)
      let valb := valb + 6
      if 0 ≤ valb then
        let shifted ← CInt.shiftRight val valb
        base64DecodeLoop cs val (valb - 8) (out ++ [UInt8.ofNat (shifted % 256).toNat])
      else base64DecodeLoop cs val valb out

def base64Decode (input : Str) : Except IntFault Str := base64DecodeLoop input 0 (-8) []

end Checked

end JustEnough
