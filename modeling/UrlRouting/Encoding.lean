import UrlRouting.Text.Form

/-!
How texts travel in the paths and queries of URLs. `raw` follows the URL standard: only unreserved
characters stand as they are and a plus sign means itself. `legacy` is the form encoding also in
paths, where a space travels as a plus sign. Queries always use the form encoding.
-/

namespace UrlRouting

inductive Encoding
  | raw
  | legacy
  deriving DecidableEq, Inhabited

namespace Encoding

def name : Encoding → String
  | raw => "raw"
  | legacy => "legacy"

def encodeChars (encoding : Encoding) (value : List Char) : List Char :=
  match encoding with
  | raw => Text.Percent.encode Text.Percent.isUnreserved (Text.Utf8.encode value)
  | legacy => Text.Form.encode value

def encode (encoding : Encoding) (value : String) : String :=
  String.ofList (encoding.encodeChars value.toList)

def encodeSegments (encoding : Encoding) (value : String) : String :=
  String.ofList
    (Text.joinFields '/' ((Text.fields '/' value.toList).map encoding.encodeChars))

def decode (encoding : Encoding) (path : String) : String :=
  String.ofList <|
    match encoding with
    | raw => Text.Percent.decode path.toList
    | legacy => Text.Form.decode path.toList

end Encoding

namespace Query

def build (pairs : List (String × String)) : String :=
  String.ofList (Text.Form.encodePairs pairs)

def parse (query : String) : List (String × String) :=
  Text.Form.decodePairs query.toList

end Query

end UrlRouting
