import UrlRouting.Text.Fields

/-!
Paths. Only the non-empty pieces between slashes carry meaning, so a path has a normal form: each
piece after one slash, or a lone slash when there is none. `pieces` reads a path for matching,
`normalForm` is the key under which a path without captures is stored, and `collapse` tidies a path
that was put together from parts.
-/

namespace UrlRouting.Path

/-- A non-empty piece of a path together with the number of bytes that stand before it. -/
structure Piece where
  offset : Nat
  text : String
  deriving DecidableEq, Inhabited

namespace Piece

def stop (piece : Piece) : Nat :=
  piece.offset + piece.text.utf8ByteSize

end Piece

/-- The non-empty ones of some fields, the first of which starts after `offset` bytes. -/
def piecesFrom (offset : Nat) : List (List Char) → List Piece
  | [] => []
  | [] :: others => piecesFrom (offset + 1) others
  | field :: others =>
      let piece : Piece := ⟨offset, String.ofList field⟩
      piece :: piecesFrom (piece.stop + 1) others

def pieces (path : String) : List Piece :=
  piecesFrom 0 (Text.fields '/' path.toList)

def slice (path : String) (start stop : Nat) : String :=
  String.Pos.Raw.extract path ⟨start⟩ ⟨stop⟩

/-- The text of a path from a piece to the end of the last of the pieces after it, with whatever
slashes stand between them. -/
def sliceFrom (path : String) (first : Piece) (others : List Piece) : String :=
  slice path first.offset ((first :: others).getLast (by simp)).stop

def ofPieces : List String → String
  | [] => "/"
  | texts => String.join (texts.map fun text => "/" ++ text)

def hasDoubleSlash : List Char → Bool
  | '/' :: '/' :: _ => true
  | _ :: rest => hasDoubleSlash rest
  | [] => false

/-- Whether a path with at least one piece already has a slash before each piece and nowhere
else. -/
def isNormal (path : String) : Bool :=
  let text := path.toList
  text.head? == some '/' && text.getLast? != some '/' && !hasDoubleSlash text

/-- The form shared by all paths with the same pieces. A path that has it is returned as it is. -/
def normalForm (path : String) : String :=
  let texts := (pieces path).map Piece.text
  if texts.isEmpty then "/"
  else if isNormal path then path
  else ofPieces texts

def squeeze : List Char → List Char
  | '/' :: '/' :: rest => squeeze ('/' :: rest)
  | character :: rest => character :: squeeze rest
  | [] => []

/-- A path with runs of slashes made one slash and none left at its end; nothing left over is the
root path. -/
def collapse (path : String) : String :=
  let text := Text.trimEnd (· == '/') (squeeze path.toList)
  if text.isEmpty then "/" else String.ofList text

end UrlRouting.Path
