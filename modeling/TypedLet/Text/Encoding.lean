/-
Text in bytes and in code units. UTF-8 writes a character as one to four bytes, UTF-16 as one
unit or as a pair of surrogates. Bytes are read back character by character, and those that
belong to no character are left out, such as the first bytes of a character whose others have
been cut off.
-/
namespace TypedLet.Text

namespace Utf8

def encode (cs : List Char) : List UInt8 := cs.flatMap String.utf8EncodeChar

/-- The character that the bytes start with, if they do start with one. -/
def first? (bytes : List UInt8) : Option Char := (bytes.take 4).toByteArray.utf8DecodeChar? 0

/-- The characters in the bytes. As many bytes as `inside` says go with the last character. -/
def decodeFrom (inside : Nat) : List UInt8 → List Char
  | [] => []
  | b :: rest =>
    match inside with
    | more + 1 => decodeFrom more rest
    | 0 =>
      match first? (b :: rest) with
      | some c => c :: decodeFrom (c.utf8Size - 1) rest
      | none => decodeFrom 0 rest

def decode (bytes : List UInt8) : List Char := decodeFrom 0 bytes

end Utf8

namespace Utf16

def encodeChar (c : Char) : List UInt16 :=
  if c.toNat < 0x10000 then [c.toNat.toUInt16]
  else
    let above := c.toNat - 0x10000
    [(0xD800 + above / 0x400).toUInt16, (0xDC00 + above % 0x400).toUInt16]

def encode (cs : List Char) : List UInt16 := cs.flatMap encodeChar

end Utf16
end TypedLet.Text
