import Elementwise.Digest.Sha256
import Elementwise.IR.Wire.Encode
import Elementwise.Msgpack.Wire

/-!
# Fingerprints

The digest of a program's wire form in MessagePack, after a tag that keeps it apart from other
digests.
-/
namespace Elementwise.IR
open Text.Utf8

def fingerprintTag : String := "parallax/kernel/v1"

def Program.msgpack (p : Program) : Except Panic (List UInt8) := p.encode.map Msgpack.writeModule

def Program.fingerprint (p : Program) : Except Panic String :=
  p.msgpack.map fun data => Digest.sha256Hex (bytes fingerprintTag ++ 0 :: data)

/-- A stable entry point name: the first 16 bytes of a fingerprint. -/
def kernelName (fingerprint : String) : String :=
  "kernel_" ++ text ((bytes fingerprint).take 16)

end Elementwise.IR
