import MustDb.Lib.LittleEndian

/-!
# `MustDb.Libv.Checksum`: the page checksum

The integer mixers and `checksum` of `libv/src/hash.c`. The checksum xors the mixed 64-bit words
of a buffer. The last 0 to 7 bytes, if any, go through a string hash over `char`, which is signed
on the supported targets.
-/

set_option autoImplicit false

namespace MustDb.Libv

open MustDb.Lib

/-- `murmurhash32`: the 32-bit finalizer, widened to 64 bits. -/
def murmurhash32 (x : UInt32) : UInt64 :=
  let x := x ^^^ (x >>> 16)
  let x := x * 0x85ebca6b
  let x := x ^^^ (x >>> 13)
  let x := x * 0xc2b2ae35
  let x := x ^^^ (x >>> 16)
  x.toUInt64

/-- `hash`: only the low 32 bits of the word count. -/
def hash (val : UInt64) : UInt64 :=
  murmurhash32 val.toUInt32

/-- `hash1`: the string hash over signed characters. -/
def hash1 (val : List UInt8) : UInt64 :=
  val.foldl (fun hash c => ((hash <<< 5) + hash) + c.toInt8.toInt64.toUInt64) 5381

/-- `hash_u8` -/
def hashU8 (val : List UInt8) : UInt64 :=
  hash1 val

/-- The word loop of `checksum`: `n` turns of `result ^= hash(ptr[i])` from the front of
`buffer`. -/
def checksumWords : Nat → List UInt8 → UInt64 → UInt64
  | 0, _, result => result
  | n + 1, buffer, result =>
      checksumWords n (buffer.drop 8) (result ^^^ hash (u64OfBytes buffer))

/-- `checksum` -/
def checksum (buffer : List UInt8) : UInt64 :=
  let size := buffer.length
  let i := size / 8
  let result := checksumWords i buffer 5381
  if size - i * 8 > 0 then
    -- the remaining 0 to 7 bytes
    result ^^^ hashU8 (buffer.drop (i * 8))
  else
    result

end MustDb.Libv
