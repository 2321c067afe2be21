import O2Chat.Common.Utils

/-!
# `gzipInflate`

zlib is a parameter: a stream type, the three calls that are made of it, and the
documented meaning of `Z_OK`, that a call which returns it has made progress.
-/
namespace O2Chat.Net

open O2Chat.Common

/-- The results of `inflate` that the loop tells apart. -/
inductive InflateStatus
  | ok
  | streamEnd
  | failed
  deriving DecidableEq, Repr

structure Zlib where
  Stream : Type
  /-- `inflateInit2` on the input bytes; `none` unless it returns `Z_OK`. -/
  inflateInit2 : Bytes → Option Stream
  /-- `inflate` with this much output space: the status and the bytes written. -/
  inflate : Stream → Nat → InflateStatus × Bytes × Stream
  /-- Whether `inflateEnd` returns `Z_OK`. -/
  inflateEnd : Stream → Bool
  /-- The input and output bytes still to come. -/
  remaining : Stream → Nat
  progress : ∀ strm availOut, (inflate strm availOut).1 = .ok →
    remaining (inflate strm availOut).2.2 < remaining strm

/-- The loop: `out` are the `total_out` bytes at the front of the buffer. -/
def inflateLoop (z : Zlib) (halfLength bufferSize : Nat) (out : Bytes) (strm : z.Stream) :
    InflateStatus × Bytes × z.Stream :=
  let size := if bufferSize ≤ out.length then bufferSize + halfLength else bufferSize
  let result := z.inflate strm ((size - out.length) % 2 ^ 32)
  if _h : result.1 = .ok then inflateLoop z halfLength size (out ++ result.2.1) result.2.2
  else (result.1, out ++ result.2.1, result.2.2)
termination_by z.remaining strm
decreasing_by exact z.progress strm _ _h

/-- The uncompressed bytes, or nothing when `false` is returned. -/
def gzipInflate (z : Zlib) (compressedBytes : Bytes) : Option Bytes :=
  if compressedBytes = [] then some []
  else
    match z.inflateInit2 (compressedBytes.take (compressedBytes.length % 2 ^ 32)) with
    | none => none
    | some strm =>
      let halfLength := compressedBytes.length / 2
      let result := inflateLoop z halfLength (halfLength * 3) [] strm
      if z.inflateEnd result.2.2 = false ∧ result.1 ≠ .streamEnd then none else some result.2.1

end O2Chat.Net
