/-! # The cyclic redundancy check of 32 bits

* **`Crc32.step`** — the register after one byte;
* **`Crc32.ofBytes`** — the check value of some bytes: reflected polynomial `0xEDB88320`, register and
  result inverted. -/

namespace LayeredBundles

namespace Crc32

/-- The register after one zero bit. -/
def shift (r : UInt32) : UInt32 :=
  if r &&& 1 = 1 then (r >>> 1) ^^^ 0xEDB88320 else r >>> 1

/-- The register after eight zero bits. -/
def shift8 (r : UInt32) : UInt32 :=
  shift (shift (shift (shift (shift (shift (shift (shift r)))))))

/-- The register after the byte `b`. -/
def step (r : UInt32) (b : UInt8) : UInt32 :=
  shift8 ((r ^^^ b.toUInt32) &&& 0xFF) ^^^ (r >>> 8)

/-- The check value of the bytes. -/
def ofBytes (d : ByteArray) : UInt32 := (d.foldl step 0xFFFFFFFF) ^^^ 0xFFFFFFFF

end Crc32

end LayeredBundles
