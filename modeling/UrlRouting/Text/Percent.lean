import UrlRouting.Text.Hex
import UrlRouting.Text.Utf8

/-!
Percent encoding. A byte is written as a percent sign and two hexadecimal digits; reading takes such
triples back and leaves every other percent sign as it is.
-/

namespace UrlRouting.Text.Percent

def digitValue? (byte : UInt8) : Option Nat :=
  hexValue? (Char.ofNat byte.toNat)

def triple (byte : UInt8) : List Char :=
  ['%', hexDigit (byte.toNat / 16), hexDigit (byte.toNat % 16)]

/-- Write bytes, those that the test keeps as the character with that code. -/
def encode (keep : UInt8 → Bool) (bytes : List UInt8) : List Char :=
  bytes.flatMap fun byte => if keep byte then [Char.ofNat byte.toNat] else triple byte

def decodeBytes : List UInt8 → List UInt8
  | percent :: high :: low :: rest =>
      if percent = 37 then
        match digitValue? high, digitValue? low with
        | some upper, some lower => (upper * 16 + lower).toUInt8 :: decodeBytes rest
        | _, _ => percent :: decodeBytes (high :: low :: rest)
      else
        percent :: decodeBytes (high :: low :: rest)
  | byte :: rest => byte :: decodeBytes rest
  | [] => []

def decode (text : List Char) : List Char :=
  Utf8.decodeLossy (decodeBytes (Utf8.encode text))

def isAlphanumeric (byte : UInt8) : Bool :=
  (Char.ofNat byte.toNat).isAlphanum

def isUnreserved (byte : UInt8) : Bool :=
  isAlphanumeric byte || byte == 45 || byte == 46 || byte == 95 || byte == 126

end UrlRouting.Text.Percent
