import StackMachine.Bytes.Word
import StackMachine.Digest.Sha256
import StackMachine.Function.Basic
import StackMachine.Text.Decimal
import StackMachine.Text.Utf8

/-!
# Fingerprints

The fingerprint of a function is the SHA-256 digest of its name, frame layout, code and static blocks.  Name, offsets, code
and the data of each block are preceded by their lengths.
-/

namespace StackMachine

/-- A length in eight bytes, and the bytes. -/
def delimited (bytes : List UInt8) : List UInt8 :=
  littleEndian 8 bytes.length ++ bytes

/-- What the fingerprint takes in of a static block. -/
def Block.fingerprintBytes (block : Block) : List UInt8 :=
  delimited block.data.toList ++ block.loadOffsets.flatMap fun offset => littleEndian 8 offset.toNat

/-- What the fingerprint takes in of a function. -/
def Function.fingerprintBytes (f : Function) : List UInt8 :=
  delimited (encodeUtf8 f.name) ++
  littleEndian 8 f.localOffsets.length ++
  (f.localOffsets.flatMap fun offset => littleEndian 4 offset.toNat) ++
  littleEndian 4 f.localSize.toNat ++
  delimited f.code.toList ++
  f.staticData.flatMap Block.fingerprintBytes

/-- The fingerprint, in hexadecimal. -/
def Function.fingerprint (f : Function) : String :=
  hexText (sha256 f.fingerprintBytes)

end StackMachine
