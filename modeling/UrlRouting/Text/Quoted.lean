import UrlRouting.Text.Hidden

/-!
Texts quoted for reports. A quoted text stands between double quotes, shows every character that
shows on its own, and names all others.
-/

namespace UrlRouting.Text

def quoteChar (character : Char) : List Char :=
  match character with
  | '"' => ['\\', '"']
  | '\\' => ['\\', '\\']
  | '\n' => ['\\', 'n']
  | '\r' => ['\\', 'r']
  | '\t' => ['\\', 't']
  | '\x00' => ['\\', '0']
  | _ =>
      if isHidden character then
        '\\' :: 'u' :: '{' :: Nat.toDigits 16 character.toNat ++ ['}']
      else
        [character]

def quote (text : String) : String :=
  String.ofList ('"' :: text.toList.flatMap quoteChar ++ ['"'])

def quoteList (texts : List String) : String :=
  "[" ++ String.intercalate ", " (texts.map quote) ++ "]"

end UrlRouting.Text
