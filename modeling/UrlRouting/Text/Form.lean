import UrlRouting.Text.Fields
import UrlRouting.Text.Percent

/-!
The form encoding `application/x-www-form-urlencoded`. Names and values keep ASCII letters, digits
and four marks, write a space as a plus sign and everything else as percent triples; pairs are
written as `name=value` with ampersands between them.
-/

namespace UrlRouting.Text.Form

def isKept (byte : UInt8) : Bool :=
  Percent.isAlphanumeric byte || byte == 42 || byte == 45 || byte == 46 || byte == 95

def encode (text : List Char) : List Char :=
  (Utf8.encode text).flatMap fun byte =>
    if byte = 32 then ['+'] else Percent.encode isKept [byte]

def decode (text : List Char) : List Char :=
  Percent.decode (text.map fun character => if character = '+' then ' ' else character)

def encodePairs (pairs : List (String × String)) : List Char :=
  joinFields '&' (pairs.map fun pair => encode pair.1.toList ++ '=' :: encode pair.2.toList)

def decodePair (text : List Char) : String × String :=
  let (name, value) := (cutFirst? '=' text).getD (text, [])
  (String.ofList (decode name), String.ofList (decode value))

def decodePairs (text : List Char) : List (String × String) :=
  ((fields '&' text).filter (!·.isEmpty)).map decodePair

end UrlRouting.Text.Form
