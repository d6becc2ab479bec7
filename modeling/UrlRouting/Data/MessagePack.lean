import UrlRouting.Data.Basic

/-!
Data as MessagePack bytes. Every length and number is written in the fewest bytes. Reading takes the
first value of some bytes and does not look at those after it.
-/

namespace UrlRouting.MessagePack

def bigEndian : Nat → Nat → List UInt8
  | 0, _ => []
  | width + 1, value => bigEndian width (value / 256) ++ [(value % 256).toUInt8]

def capacity (width : Nat) : Nat :=
  Nat.pow 256 width

def ofBigEndian (bytes : List UInt8) : Nat :=
  bytes.foldl (fun value byte => value * 256 + byte.toNat) 0

def encodeLength (small : Nat) (limit : Nat) (wide : List (Nat × Nat)) (length : Nat) :
    List UInt8 :=
  if length < limit then
    [(small + length).toUInt8]
  else
    match wide.find? fun (_, width) => length < capacity width with
    | some (marker, width) => marker.toUInt8 :: bigEndian width length
    | none => []

def encodeUnsigned (value : Nat) : List UInt8 :=
  encodeLength 0 128 [(0xCC, 1), (0xCD, 2), (0xCE, 4), (0xCF, 8)] value

def encodeNegative (magnitude : Nat) : List UInt8 :=
  if magnitude ≤ 32 then
    [(256 - magnitude).toUInt8]
  else
    match [(0xD0, 1), (0xD1, 2), (0xD2, 4), (0xD3, 8)].find? fun (_, width) =>
        2 * magnitude ≤ capacity width with
    | some (marker, width) => marker.toUInt8 :: bigEndian width (capacity width - magnitude)
    | none => []

def textHeader (length : Nat) : List UInt8 :=
  encodeLength 0xA0 32 [(0xD9, 1), (0xDA, 2), (0xDB, 4)] length

def bytesHeader (length : Nat) : List UInt8 :=
  encodeLength 0 0 [(0xC4, 1), (0xC5, 2), (0xC6, 4)] length

def listHeader (length : Nat) : List UInt8 :=
  encodeLength 0x90 16 [(0xDC, 2), (0xDD, 4)] length

def mapHeader (length : Nat) : List UInt8 :=
  encodeLength 0x80 16 [(0xDE, 2), (0xDF, 4)] length

mutual

/-- Write data. Only data that has a value of its own is told apart: what can be skipped but not
read is written as nothing. -/
def encode : Data → List UInt8
  | .null => [0xC0]
  | .bool value => if value then [0xC3] else [0xC2]
  | .unsigned value => encodeUnsigned value
  | .signed (.ofNat value) => encodeUnsigned value
  | .signed (.negSucc value) => encodeNegative (value + 1)
  | .fraction => [0xC0]
  | .text value =>
      let bytes := Text.Utf8.encode value.toList
      textHeader bytes.length ++ bytes
  | .unpairedText => [0xC0]
  | .bytes value => bytesHeader value.length ++ value
  | .extension => [0xC0]
  | .list items => listHeader items.length ++ encodeItems items
  | .map entries => mapHeader entries.length ++ encodeEntries entries

def encodeItems : List Data → List UInt8
  | [] => []
  | item :: others => encode item ++ encodeItems others

def encodeEntries : List (Data × Data) → List UInt8
  | [] => []
  | (key, value) :: others => encode key ++ encode value ++ encodeEntries others

end

def takeBytes (count : Nat) (bytes : List UInt8) : Option (List UInt8 × List UInt8) :=
  let taken := bytes.take count
  if taken.length = count then some (taken, bytes.drop count) else none

def takeNumber (width : Nat) (bytes : List UInt8) : Option (Nat × List UInt8) :=
  (takeBytes width bytes).map fun (taken, rest) => (ofBigEndian taken, rest)

def ofTwosComplement (width value : Nat) : Int :=
  if 2 * value < capacity width then value else (value : Int) - capacity width

def takeMany {α : Type} (take : List UInt8 → Option (α × List UInt8)) :
    Nat → List UInt8 → Option (List α × List UInt8)
  | 0, bytes => some ([], bytes)
  | count + 1, bytes => do
      let (first, bytes) ← take bytes
      let (others, bytes) ← takeMany take count bytes
      return (first :: others, bytes)

def takePair (take : List UInt8 → Option (Data × List UInt8)) (bytes : List UInt8) :
    Option ((Data × Data) × List UInt8) := do
  let (key, bytes) ← take bytes
  let (value, bytes) ← take bytes
  return ((key, value), bytes)

def textOfBytes (bytes : List UInt8) : Data :=
  match Text.Utf8.decode? bytes with
  | some text => .text (String.ofList text)
  | none => .bytes bytes

inductive Header
  | value (data : Data)
  | text (length : Nat)
  | bytes (length : Nat)
  | extension (length : Nat)
  | list (length : Nat)
  | map (length : Nat)

def takeHeader (first : UInt8) (rest : List UInt8) : Option (Header × List UInt8) :=
  let marker := first.toNat
  let wide (width : Nat) (header : Nat → Header) : Option (Header × List UInt8) :=
    (takeNumber width rest).map fun (number, rest) => (header number, rest)
  if marker < 0x80 then some (.value (.unsigned marker), rest)
  else if marker < 0x90 then some (.map (marker - 0x80), rest)
  else if marker < 0xA0 then some (.list (marker - 0x90), rest)
  else if marker < 0xC0 then some (.text (marker - 0xA0), rest)
  else if 0xE0 ≤ marker then some (.value (.signed ((marker : Int) - 256)), rest)
  else
    match marker with
    | 0xC0 => some (.value .null, rest)
    | 0xC2 => some (.value (.bool false), rest)
    | 0xC3 => some (.value (.bool true), rest)
    | 0xC4 => wide 1 .bytes
    | 0xC5 => wide 2 .bytes
    | 0xC6 => wide 4 .bytes
    | 0xC7 => wide 1 .extension
    | 0xC8 => wide 2 .extension
    | 0xC9 => wide 4 .extension
    | 0xCA => wide 4 fun _ => .value .fraction
    | 0xCB => wide 8 fun _ => .value .fraction
    | 0xCC => wide 1 fun number => .value (.unsigned number)
    | 0xCD => wide 2 fun number => .value (.unsigned number)
    | 0xCE => wide 4 fun number => .value (.unsigned number)
    | 0xCF => wide 8 fun number => .value (.unsigned number)
    | 0xD0 => wide 1 fun number => .value (.signed (ofTwosComplement 1 number))
    | 0xD1 => wide 2 fun number => .value (.signed (ofTwosComplement 2 number))
    | 0xD2 => wide 4 fun number => .value (.signed (ofTwosComplement 4 number))
    | 0xD3 => wide 8 fun number => .value (.signed (ofTwosComplement 8 number))
    | 0xD4 => some (.extension 1, rest)
    | 0xD5 => some (.extension 2, rest)
    | 0xD6 => some (.extension 4, rest)
    | 0xD7 => some (.extension 8, rest)
    | 0xD8 => some (.extension 16, rest)
    | 0xD9 => wide 1 .text
    | 0xDA => wide 2 .text
    | 0xDB => wide 4 .text
    | 0xDC => wide 2 .list
    | 0xDD => wide 4 .list
    | 0xDE => wide 2 .map
    | 0xDF => wide 4 .map
    | _ => none

def takeBody (below : Option (List UInt8 → Option (Data × List UInt8))) :
    Header → List UInt8 → Option (Data × List UInt8)
  | .value data, rest => some (data, rest)
  | .text length, rest => do
      let (bytes, rest) ← takeBytes length rest
      return (textOfBytes bytes, rest)
  | .bytes length, rest => do
      let (bytes, rest) ← takeBytes length rest
      return (.bytes bytes, rest)
  | .extension length, rest => do
      let _ ← below
      let (_, rest) ← takeBytes (length + 1) rest
      return (.extension, rest)
  | .list length, rest => do
      let (items, rest) ← takeMany (← below) length rest
      return (.list items, rest)
  | .map length, rest => do
      let (entries, rest) ← takeMany (takePair (← below)) length rest
      return (.map entries, rest)

def decodeWith (below : Option (List UInt8 → Option (Data × List UInt8))) :
    List UInt8 → Option (Data × List UInt8)
  | [] => none
  | first :: rest => do
      let (header, rest) ← takeHeader first rest
      takeBody below header rest

def decodeAt : Nat → List UInt8 → Option (Data × List UInt8)
  | 0 => decodeWith none
  | depth + 1 => decodeWith (some (decodeAt depth))

def depth : Nat := 1023

/-- What counts as a level: data that is skipped does, but choices do not. -/
def counting : Data.Counting :=
  { skipped := true, choices := false }

/-- The first value of some bytes. The last level that may be descended can hold a choice, which
lies one level deeper than those that count. -/
def decode (bytes : List UInt8) : Option Data :=
  (decodeAt (depth + 1) bytes).map Prod.fst

def readAs {α : Type} (read : Data.Reader α) (bytes : List UInt8) : Option α := do
  read counting depth (← decode bytes)

end UrlRouting.MessagePack
