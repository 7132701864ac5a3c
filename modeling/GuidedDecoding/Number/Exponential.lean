import GuidedDecoding.Number.Width

/-!
# The exponential of a single

`exponential x` is `2 ^ (z / 32)` for `z = 32 x / ln 2`, worked out in double precision and then rounded
once. With `k` the whole number nearest to `z`, the power is `2 ^ (k / 32)`, which a table and a shift of
the exponent give, times `2 ^ ((z - k) / 32)`, which a cubic gives.
-/

namespace GuidedDecoding

/-- The bits of the doubles nearest to `2 ^ (i / 32)` for `i < 32`. -/
def powerBits : List UInt64 :=
  [0x3FF0000000000000, 0x3FF059B0D3158574, 0x3FF0B5586CF9890F, 0x3FF11301D0125B51,
   0x3FF172B83C7D517B, 0x3FF1D4873168B9AA, 0x3FF2387A6E756238, 0x3FF29E9DF51FDEE1,
   0x3FF306FE0A31B715, 0x3FF371A7373AA9CB, 0x3FF3DEA64C123422, 0x3FF44E086061892D,
   0x3FF4BFDAD5362A27, 0x3FF5342B569D4F82, 0x3FF5AB07DD485429, 0x3FF6247EB03A5585,
   0x3FF6A09E667F3BCD, 0x3FF71F75E8EC5F74, 0x3FF7A11473EB0187, 0x3FF82589994CCE13,
   0x3FF8ACE5422AA0DB, 0x3FF93737B0CDC5E5, 0x3FF9C49182A3F090, 0x3FFA5503B23E255D,
   0x3FFAE89F995AD3AD, 0x3FFB7F76F2FB5E47, 0x3FFC199BDD85529C, 0x3FFCB720DCEF9069,
   0x3FFD5818DCFBA487, 0x3FFDFC97337B9B5F, 0x3FFEA4AFA2A490DA, 0x3FFF50765B6E4540]

/-- `32 / ln 2`. -/
def stepsPerUnit : Float := Float.ofBits 0x40471547652B82FE

/-- A double this large has no fraction: adding it rounds to the nearest whole number, which is then in the
low bits of the sum. -/
def wholeShift : Float := Float.ofBits 0x4338000000000000

/-- The cubic in `r` that is `2 ^ (r / 32)` for `r` from `-1/2` to `1/2`. -/
def smallPower (r : Float) : Float :=
  let high := Float.ofBits 0x3EBC6AF84B912394 * r + Float.ofBits 0x3F2EBFCE50FAC4F3
  let low := Float.ofBits 0x3F962E42FF0C52D6 * r + 1
  high * (r * r) + low

/-- `2 ^ (z / 32)` for `z` whose whole part is small. -/
def powerOfTwo (z : Float) : Float :=
  let shifted := z + wholeShift
  let k := shifted.toBits
  let entry := powerBits[(k % 32).toNat]?.getD 0
  -- What is above the low five bits of the sum is added to the exponent.
  let scale := Float.ofBits (entry + (k >>> 5 <<< 52))
  smallPower (z - (shifted - wholeShift)) * scale

/-- The greatest single whose exponential is a single. -/
def exponentialTop : Float32 := Float32.ofBits 0x42B17217

/-- The least single whose exponential is not zero. -/
def exponentialBottom : Float32 := Float32.ofBits 0xC2CFF1B4

def exponential (x : Float32) : Float32 :=
  if x.isNaN then x
  else if exponentialTop < x then Float32.ofBits 0x7F800000
  else if x < exponentialBottom then 0
  else narrow (powerOfTwo (stepsPerUnit * widen x))

end GuidedDecoding
