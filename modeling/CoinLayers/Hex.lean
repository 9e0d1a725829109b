/-!
Bytes written as hexadecimal text: two lower case digits a byte, the high digit first.
-/
namespace CoinLayers.Hex

/-- The digit of a number below sixteen. -/
def digit (n : Nat) : Char :=
  if n < 10 then Char.ofNat (48 + n) else Char.ofNat (87 + n)

/-- The two digits of a byte. -/
def ofByte (b : UInt8) : List Char :=
  [digit (b.toNat / 16), digit (b.toNat % 16)]

/-- The digits of a run of bytes, in the order of the bytes. -/
def ofBytes (bytes : List UInt8) : String :=
  String.ofList (bytes.flatMap ofByte)

example : ofBytes [0x00, 0x9f, 0xff] = "009fff" := by decide

end CoinLayers.Hex
