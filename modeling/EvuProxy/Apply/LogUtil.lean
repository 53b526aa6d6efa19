import EvuProxy.Go.Utf8

/-!
# Text for the log

`internal/apply/logutil.go`, for the output of a command: a string of bytes, in UTF-8 or not. The text of an error of the model is a
string of characters, and `truncateForLog` is the same function for these.
-/

namespace EvuProxy

open Go

/-- What is written where text is left out. -/
def truncatedMark : List UInt8 := "…(truncated)".toList.flatMap String.utf8EncodeChar

example : truncatedMark = [0xE2, 0x80, 0xA6, 0x28, 0x74, 0x72, 0x75, 0x6E, 0x63, 0x61, 0x74, 0x65, 0x64, 0x29] := by decide

/-- The loop of `TruncateForLog`, with the bytes that are left. -/
def cutBack (s : List UInt8) : Nat → List UInt8
  | 0 => []
  | n + 1 => if validString (s.take (n + 1)) then s.take (n + 1) else cutBack s n

/-- `TruncateForLog`. -/
def truncateForLogBytes (s : List UInt8) (max : Int) : List UInt8 :=
  if max ≤ 0 ∨ (s.length : Int) ≤ max then s else cutBack s max.toNat ++ truncatedMark

end EvuProxy
