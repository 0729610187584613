/-! # Padded and hexadecimal text -/

namespace Mlfq.Text

/-- `s` with enough copies of `c` in front to be `width` characters long. -/
def padLeft (width : Nat) (c : Char) (s : String) : String :=
  String.ofList (s.toList.leftpad width c)

/-- `s` with enough copies of `c` behind to be `width` characters long. -/
def padRight (width : Nat) (c : Char) (s : String) : String :=
  String.ofList (s.toList.rightpad width c)

/-- The hexadecimal digits of `n`, in upper case and without leading zeros. -/
def hex (n : Nat) : String := String.ofList ((Nat.toDigits 16 n).map Char.toUpper)

/-- The hexadecimal digits of `n`, at least four of them. -/
def hex4 (n : Nat) : String := padLeft 4 '0' (hex n)

end Mlfq.Text
