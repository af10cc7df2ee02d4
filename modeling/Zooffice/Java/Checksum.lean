import Mathlib.Logic.Function.Iterate
/-!
# The checksum of a file

`java.util.zip.CRC32` over the bytes of a file, as `FileUtils.checksumCRC32`
returns it.
-/


namespace Zooffice

/-- One bit of the reflected polynomial division. -/
def crcBit (crc : UInt32) : UInt32 :=
  if crc &&& 1 = 1 then (crc >>> 1) ^^^ 0xEDB88320 else crc >>> 1

/-- One byte. -/
def crcByte (crc : UInt32) (byte : UInt8) : UInt32 :=
  crcBit^[8] (crc ^^^ byte.toUInt32)

/-- `FileUtils.checksumCRC32`. -/
def checksumCRC32 (bytes : List UInt8) : Nat :=
  (bytes.foldl crcByte 0xFFFFFFFF ^^^ 0xFFFFFFFF).toNat

/-- The check value of the polynomial. -/
example : checksumCRC32 ("123456789".toList.map fun c => c.toNat.toUInt8) = 0xCBF43926 := by
  decide +kernel

end Zooffice
