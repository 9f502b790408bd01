/-!
# Reading bytes as text

Bytes are text when they are well formed UTF-8. Where they are not, the fault says which bytes are to
blame and why, so that whoever wrote them can find the place. Text files may end their lines in
three ways; read as text, all of them are newlines.
-/

namespace Literate.Text

/-- Why bytes are no text. -/
inductive Utf8Reason where
  | invalidStart
  | invalidContinuation
  | unexpectedEnd
deriving DecidableEq, Repr

/-- The bytes that are to blame: where they start, how many they are, and the first of them. -/
structure Utf8Fault where
  reason : Utf8Reason
  start : Nat
  length : Nat
  byte : UInt8
deriving DecidableEq, Repr

/-- The first byte of a sequence: how many bytes follow, the range of the next one, and the bits that
it contributes. -/
def lead? (b : UInt8) : Option (Nat × Nat × Nat × Nat) :=
  let n := b.toNat
  if n < 0x80 then some (0, 0, 0, n)
  else if n < 0xC2 then none
  else if n < 0xE0 then some (1, 0x80, 0xBF, n - 0xC0)
  else if n = 0xE0 then some (2, 0xA0, 0xBF, 0)
  else if n = 0xED then some (2, 0x80, 0x9F, 0xD)
  else if n < 0xF0 then some (2, 0x80, 0xBF, n - 0xE0)
  else if n = 0xF0 then some (3, 0x90, 0xBF, 0)
  else if n < 0xF4 then some (3, 0x80, 0xBF, n - 0xF0)
  else if n = 0xF4 then some (3, 0x80, 0x8F, 4)
  else none

/-- The code point of a sequence whose first byte has been read, and how many more bytes it takes; or
why it is none, and how many more bytes are to blame. -/
def continue? : (count low high acc : Nat) → List UInt8 → Except (Utf8Reason × Nat) (Nat × Nat)
  | 0, _, _, acc, _ => .ok (acc, 0)
  | _ + 1, _, _, _, [] => .error (.unexpectedEnd, 0)
  | count + 1, low, high, acc, b :: bs =>
    if low ≤ b.toNat && b.toNat ≤ high then
      match continue? count 0x80 0xBF (acc * 64 + (b.toNat - 0x80)) bs with
      | .ok (code, n) => .ok (code, n + 1)
      | .error (reason, n) => .error (reason, n + 1)
    else .error (.invalidContinuation, 0)

/-- The characters of bytes that start at an offset. -/
def decodeFrom (offset : Nat) (bs : List UInt8) : Except Utf8Fault (List Char) :=
  match bs with
  | [] => .ok []
  | b :: rest =>
    match lead? b with
    | none => .error ⟨.invalidStart, offset, 1, b⟩
    | some (count, low, high, acc) =>
      match continue? count low high acc rest with
      | .error (reason, n) => .error ⟨reason, offset, n + 1, b⟩
      | .ok (code, n) =>
        match decodeFrom (offset + n + 1) (rest.drop n) with
        | .error f => .error f
        | .ok cs => .ok (Char.ofNat code :: cs)
termination_by bs.length

/-- The text that bytes spell. -/
def decode (bytes : ByteArray) : Except Utf8Fault String :=
  (decodeFrom 0 bytes.data.toList).map String.ofList

namespace Utf8Reason

def message : Utf8Reason → String
  | invalidStart => "invalid start byte"
  | invalidContinuation => "invalid continuation byte"
  | unexpectedEnd => "unexpected end of data"

end Utf8Reason

/-- Two hexadecimal digits. -/
def hexByte (b : UInt8) : String :=
  let digits := Nat.toDigits 16 b.toNat
  String.ofList (List.replicate (2 - digits.length) '0' ++ digits)

namespace Utf8Fault

def message (f : Utf8Fault) : String :=
  let bytes :=
    if f.length = 1 then s!"byte 0x{hexByte f.byte} in position {f.start}"
    else s!"bytes in position {f.start}-{f.start + f.length - 1}"
  s!"'utf-8' codec can't decode {bytes}: {f.reason.message}"

end Utf8Fault

/-- The characters with every line end made a newline. -/
def universalNewlines : List Char → List Char
  | [] => []
  | '\r' :: '\n' :: cs => '\n' :: universalNewlines cs
  | '\r' :: cs => '\n' :: universalNewlines cs
  | c :: cs => c :: universalNewlines cs

end Literate.Text
