import Mathlib.Data.List.Induction
import Mathlib.Data.Nat.Basic
import Mathlib.Order.Basic
import UrlRouting.Data.MessagePack
import UrlRouting.Proofs.Data.Basic
import UrlRouting.Proofs.Text.Utf8

/-!
MessagePack reads back what it writes, whatever bytes follow, as long as every length and number has
room in its widest header. What it writes is the shortest of all that is read as the same data.
-/

namespace UrlRouting.MessagePack

open Text.Utf8 (toNat_toUInt8)

/-! ### Numbers -/

theorem length_bigEndian (width value : Nat) : (bigEndian width value).length = width := by
  induction width generalizing value with
  | zero => rfl
  | succ width induction => simp [bigEndian, induction]

theorem capacity_succ (width : Nat) : capacity (width + 1) = 256 * capacity width :=
  Nat.pow_succ'

theorem ofBigEndian_append (bytes : List UInt8) (byte : UInt8) :
    ofBigEndian (bytes ++ [byte]) = ofBigEndian bytes * 256 + byte.toNat := by
  rw [ofBigEndian, List.foldl_append]
  rfl

theorem ofBigEndian_bigEndian {width value : Nat} (room : value < capacity width) :
    ofBigEndian (bigEndian width value) = value := by
  induction width generalizing value with
  | zero =>
      have zero : value = 0 := Nat.lt_one_iff.mp room
      rw [zero]
      rfl
  | succ width induction =>
      rw [capacity_succ] at room
      have last : (value % 256).toUInt8.toNat = value % 256 :=
        toNat_toUInt8 (Nat.mod_lt _ (by decide))
      rw [bigEndian, ofBigEndian_append, induction (Nat.div_lt_of_lt_mul room), last,
        Nat.div_add_mod']

theorem ofBigEndian_lt (bytes : List UInt8) : ofBigEndian bytes < capacity bytes.length := by
  induction bytes using List.reverseRecOn with
  | nil => decide
  | append_singleton bytes byte induction =>
      have small := byte.toNat_lt
      rw [ofBigEndian_append, List.length_append, List.length_singleton, capacity_succ]
      omega

theorem takeBytes_append (bytes rest : List UInt8) :
    takeBytes bytes.length (bytes ++ rest) = some (bytes, rest) := by
  simp [takeBytes]

theorem eq_of_takeBytes {count : Nat} {bytes taken rest : List UInt8}
    (took : takeBytes count bytes = some (taken, rest)) :
    bytes = taken ++ rest ∧ taken.length = count := by
  simp only [takeBytes, Option.ite_none_right_eq_some, Option.some.injEq, Prod.mk.injEq] at took
  rcases took with ⟨length, rfl, rfl⟩
  exact ⟨(List.take_append_drop count bytes).symm, length⟩

theorem takeNumber_bigEndian {width value : Nat} (room : value < capacity width)
    (rest : List UInt8) :
    takeNumber width (bigEndian width value ++ rest) = some (value, rest) := by
  have took := takeBytes_append (bigEndian width value) rest
  rw [length_bigEndian] at took
  rw [takeNumber, took, Option.map_some]
  simp only [ofBigEndian_bigEndian room]

theorem lt_of_takeNumber {width value : Nat} {bytes rest : List UInt8}
    (took : takeNumber width bytes = some (value, rest)) :
    value < capacity width ∧ bytes.length = width + rest.length := by
  rcases Option.map_eq_some_iff.mp took with ⟨⟨taken, others⟩, inner, same⟩
  cases same
  rcases eq_of_takeBytes inner with ⟨rfl, rfl⟩
  exact ⟨ofBigEndian_lt taken, List.length_append⟩

/-! ### Headers -/

/-- Whether some bytes are a header: they are read as it, whatever comes after them. -/
def Announces (bytes : List UInt8) (header : Header) : Prop :=
  ∃ first others, bytes = first :: others ∧
    ∀ rest, takeHeader first (others ++ rest) = some (header, rest)

theorem announces_encodeLength {small limit length : Nat} {wide : List (Nat × Nat)}
    {header : Nat → Header}
    (within : ∀ length < limit, ∀ rest,
      takeHeader (small + length).toUInt8 rest = some (header length, rest))
    (after : ∀ entry ∈ wide, ∀ rest, takeHeader entry.1.toUInt8 rest =
      (takeNumber entry.2 rest).map fun (number, rest) => (header number, rest))
    (room : ∃ entry ∈ wide, length < capacity entry.2) :
    Announces (encodeLength small limit wide length) (header length) := by
  rw [encodeLength]
  split
  case isTrue short => exact ⟨_, [], rfl, within length short⟩
  case isFalse =>
    cases found : wide.find? fun entry => length < capacity entry.2 with
    | none =>
        rcases room with ⟨entry, member, less⟩
        exact absurd (List.find?_eq_none.mp found entry member) (by simpa using less)
    | some entry =>
        have less : length < capacity entry.2 := by simpa using List.find?_some found
        refine ⟨entry.1.toUInt8, bigEndian entry.2 length, rfl, fun rest => ?_⟩
        rw [after entry (List.mem_of_find?_eq_some found), takeNumber_bigEndian less]
        rfl

theorem length_encodeLength_le {small limit width length : Nat} {wide : List (Nat × Nat)}
    (ascending : wide.Pairwise fun first second => first.2 ≤ second.2)
    (member : width ∈ wide.map Prod.snd) (room : length < capacity width) :
    (encodeLength small limit wide length).length ≤ width + 1 := by
  rcases List.mem_map.mp member with ⟨entry, inWide, rfl⟩
  rw [encodeLength]
  split
  case isTrue => simp
  case isFalse =>
    cases found : wide.find? fun entry => length < capacity entry.2 with
    | none => simp
    | some first =>
        rcases List.find?_eq_some_iff_append.mp found with ⟨-, before, others, rfl, tooSmall⟩
        simp only [List.length_cons, length_bigEndian, Nat.add_le_add_iff_right]
        rcases List.mem_append.mp inWide with inBefore | inAfter
        · exact absurd room (by simpa using tooSmall entry inBefore)
        · rcases List.mem_cons.mp inAfter with rfl | inOthers
          · exact le_rfl
          · have later := (List.pairwise_append.mp ascending).2.1
            exact (List.pairwise_cons.mp later).1 entry inOthers

theorem length_encodeLength_of_lt {small limit length : Nat} {wide : List (Nat × Nat)}
    (short : length < limit) : (encodeLength small limit wide length).length = 1 := by
  rw [encodeLength, if_pos short, List.length_singleton]

section

variable {length : Nat}

theorem announces_unsigned {value : Nat} (room : value < capacity 8) :
    Announces (encodeUnsigned value) (.value (.unsigned value)) := by
  apply announces_encodeLength
  · intro value small rest
    simp only [takeHeader, toNat_toUInt8 (show 0 + value < 256 by omega)]
    rw [if_pos (by omega), Nat.zero_add]
  · intro entry member rest
    simp only [List.mem_cons, List.not_mem_nil, or_false] at member
    rcases member with rfl | rfl | rfl | rfl <;> rfl
  · exact ⟨(0xCF, 8), by simp, room⟩

theorem announces_text (room : length < capacity 4) :
    Announces (textHeader length) (.text length) := by
  apply announces_encodeLength
  · intro length small rest
    simp only [takeHeader, toNat_toUInt8 (show 0xA0 + length < 256 by omega)]
    rw [if_neg (by omega), if_neg (by omega), if_neg (by omega), if_pos (by omega),
      Nat.add_sub_cancel_left]
  · intro entry member rest
    simp only [List.mem_cons, List.not_mem_nil, or_false] at member
    rcases member with rfl | rfl | rfl <;> rfl
  · exact ⟨(0xDB, 4), by simp, room⟩

theorem announces_list (room : length < capacity 4) :
    Announces (listHeader length) (.list length) := by
  apply announces_encodeLength
  · intro length small rest
    simp only [takeHeader, toNat_toUInt8 (show 0x90 + length < 256 by omega)]
    rw [if_neg (by omega), if_neg (by omega), if_pos (by omega), Nat.add_sub_cancel_left]
  · intro entry member rest
    simp only [List.mem_cons, List.not_mem_nil, or_false] at member
    rcases member with rfl | rfl <;> rfl
  · exact ⟨(0xDD, 4), by simp, room⟩

theorem announces_map (room : length < capacity 4) :
    Announces (mapHeader length) (.map length) := by
  apply announces_encodeLength
  · intro length small rest
    simp only [takeHeader, toNat_toUInt8 (show 0x80 + length < 256 by omega)]
    rw [if_neg (by omega), if_pos (by omega), Nat.add_sub_cancel_left]
  · intro entry member rest
    simp only [List.mem_cons, List.not_mem_nil, or_false] at member
    rcases member with rfl | rfl <;> rfl
  · exact ⟨(0xDF, 4), by simp, room⟩

end

def Header.written : Header → List UInt8
  | value data => encode data
  | text length => textHeader length
  | bytes _ => []
  | extension _ => []
  | list length => listHeader length
  | map length => mapHeader length

mutual

/-- Whether data is of the kinds that are stored, and its lengths and numbers have room in their
widest headers. -/
def hasRoom : Data → Bool
  | .null => true
  | .bool _ => true
  | .unsigned value => value < capacity 8
  | .text value => (Text.Utf8.encode value.toList).length < capacity 4
  | .list items => items.length < capacity 4 && itemsHaveRoom items
  | .map entries => entries.length < capacity 4 && entriesHaveRoom entries
  | .signed _ => false
  | .fraction => false
  | .unpairedText => false
  | .bytes _ => false
  | .extension => false

def itemsHaveRoom : List Data → Bool
  | [] => true
  | item :: others => hasRoom item && itemsHaveRoom others

def entriesHaveRoom : List (Data × Data) → Bool
  | [] => true
  | (key, value) :: others => hasRoom key && hasRoom value && entriesHaveRoom others

end

theorem itemsHaveRoom_iff {items : List Data} :
    itemsHaveRoom items = true ↔ ∀ item ∈ items, hasRoom item = true := by
  induction items with
  | nil => simp [itemsHaveRoom]
  | cons item others induction => simp [itemsHaveRoom, induction]

theorem entriesHaveRoom_iff {entries : List (Data × Data)} :
    entriesHaveRoom entries = true ↔
      ∀ entry ∈ entries, hasRoom entry.1 = true ∧ hasRoom entry.2 = true := by
  induction entries with
  | nil => simp [entriesHaveRoom]
  | cons entry others induction => simp [entriesHaveRoom, induction]

theorem encodeItems_eq (items : List Data) : encodeItems items = items.flatMap encode := by
  induction items with
  | nil => rfl
  | cons item others induction => rw [encodeItems, induction, List.flatMap_cons]

theorem encodeEntries_eq (entries : List (Data × Data)) :
    encodeEntries entries = entries.flatMap fun entry => encode entry.1 ++ encode entry.2 := by
  induction entries with
  | nil => rfl
  | cons entry others induction =>
      rw [encodeEntries, induction, List.flatMap_cons]

variable {rest others : List UInt8} {header : Header}

private theorem length_written_of_narrow {short : Header}
    (read : some (short, rest) = some (header, others)) (bound : short.written.length ≤ 1) :
    header.written.length + others.length ≤ rest.length + 1 := by
  cases read
  omega

private theorem length_written_of_wide {width : Nat} {make : Nat → Header}
    (read : (takeNumber width rest).map (fun (number, rest) => (make number, rest)) =
      some (header, others))
    (bound : ∀ number < capacity width, header = make number →
      (make number).written.length ≤ width + 1) :
    header.written.length + others.length ≤ rest.length + 1 := by
  rcases Option.map_eq_some_iff.mp read with ⟨⟨number, after⟩, took, same⟩
  cases same
  rcases lt_of_takeNumber took with ⟨less, length⟩
  have short := bound number less rfl
  omega

theorem length_written_le {first : UInt8} (read : takeHeader first rest = some (header, others))
    (room : ∀ data, header = .value data → hasRoom data = true) :
    header.written.length + others.length ≤ rest.length + 1 := by
  have refused : ∀ data, hasRoom data = false → header ≠ .value data := by
    intro data full equal
    rw [room data equal] at full
    cases full
  rw [takeHeader] at read
  split at read
  case isTrue small =>
    apply length_written_of_narrow read
    exact (length_encodeLength_of_lt small).le
  case isFalse =>
    split at read
    case isTrue small =>
      apply length_written_of_narrow read
      rw [Header.written, mapHeader, length_encodeLength_of_lt (by omega)]
    case isFalse =>
      split at read
      case isTrue small =>
        apply length_written_of_narrow read
        rw [Header.written, listHeader, length_encodeLength_of_lt (by omega)]
      case isFalse =>
        split at read
        case isTrue small =>
          apply length_written_of_narrow read
          rw [Header.written, textHeader, length_encodeLength_of_lt (by omega)]
        case isFalse =>
          split at read
          case isTrue =>
            cases read
            exact absurd rfl (refused _ rfl)
          case isFalse =>
            split at read
            case h_1 | h_2 | h_3 => exact length_written_of_narrow read le_rfl
            case h_25 | h_26 | h_27 | h_28 | h_29 | h_30 | h_31 =>
              apply length_written_of_wide read
              intro length less _
              exact length_encodeLength_le (by decide) (by simp) less
            case h_4 | h_5 | h_6 | h_7 | h_8 | h_9 =>
              apply length_written_of_wide read
              intro length _ _
              exact Nat.zero_le _
            case h_12 | h_13 | h_14 | h_15 =>
              apply @length_written_of_wide _ _ _ _ (fun value => .value (.unsigned value)) read
              intro value less _
              exact length_encodeLength_le (by decide) (by simp) less
            case h_10 | h_11 | h_16 | h_17 | h_18 | h_19 =>
              rcases Option.map_eq_some_iff.mp read with ⟨⟨number, after⟩, -, same⟩
              cases same
              exact absurd rfl (refused _ rfl)
            case h_20 | h_21 | h_22 | h_23 | h_24 =>
              exact length_written_of_narrow read (Nat.zero_le _)
            case h_32 => cases read

/-! ### Reading what is written -/

section

variable {depth : Nat} {data : Data} {bytes rest : List UInt8} {items : List Data}
  {entries : List (Data × Data)}

theorem Announces.decodeWith_eq {below : Option (List UInt8 → Option (Data × List UInt8))}
    {written : List UInt8} {header : Header} (announces : Announces written header)
    (rest : List UInt8) : decodeWith below (written ++ rest) = takeBody below header rest := by
  rcases announces with ⟨first, others, rfl, read⟩
  rw [List.cons_append, decodeWith, read]
  rfl

theorem takeMany_flatMap {α : Type} {take : List UInt8 → Option (α × List UInt8)}
    {write : α → List UInt8} {items : List α}
    (each : ∀ item ∈ items, ∀ rest, take (write item ++ rest) = some (item, rest))
    (rest : List UInt8) :
    takeMany take items.length (items.flatMap write ++ rest) = some (items, rest) := by
  induction items with
  | nil => rfl
  | cons item others induction =>
      have first := each item List.mem_cons_self
      have later := induction fun item member => each item (List.mem_cons_of_mem _ member)
      rw [List.flatMap_cons, List.append_assoc, List.length_cons, takeMany, first]
      simp [later]

theorem takePair_append {take : List UInt8 → Option (Data × List UInt8)} {entry : Data × Data}
    (key : ∀ rest, take (encode entry.1 ++ rest) = some (entry.1, rest))
    (value : ∀ rest, take (encode entry.2 ++ rest) = some (entry.2, rest)) (rest : List UInt8) :
    takePair take (encode entry.1 ++ encode entry.2 ++ rest) = some (entry, rest) := by
  rw [List.append_assoc, takePair, key]
  simp [value]

theorem decodeWith_encode_of_flat (room : hasRoom data = true) (flat : data.height = 0)
    (below : Option (List UInt8 → Option (Data × List UInt8))) (rest : List UInt8) :
    decodeWith below (encode data ++ rest) = some (data, rest) := by
  cases data with
  | null =>
      have announces : Announces [0xC0] (.value .null) := ⟨_, [], rfl, fun _ => rfl⟩
      exact announces.decodeWith_eq rest
  | bool value =>
      have announces : Announces (encode (.bool value)) (.value (.bool value)) := by
        cases value with
        | false => exact ⟨0xC2, [], rfl, fun _ => rfl⟩
        | true => exact ⟨0xC3, [], rfl, fun _ => rfl⟩
      exact announces.decodeWith_eq rest
  | unsigned value =>
      have less : value < capacity 8 := by simpa [hasRoom] using room
      exact (announces_unsigned less).decodeWith_eq rest
  | text value =>
      have less : (Text.Utf8.encode value.toList).length < capacity 4 := by
        simpa [hasRoom] using room
      rw [encode, List.append_assoc, (announces_text less).decodeWith_eq, takeBody,
        takeBytes_append]
      simp [textOfBytes, Text.Utf8.decode?_encode]
  | list items => cases flat
  | map entries => cases flat
  | signed | fraction | unpairedText | bytes | extension => cases room

/-- What is written is read back, and no byte after it is taken. -/
theorem decodeAt_encode (room : hasRoom data = true) (shallow : data.height ≤ depth)
    (rest : List UInt8) : decodeAt depth (encode data ++ rest) = some (data, rest) := by
  induction depth generalizing data rest with
  | zero => exact decodeWith_encode_of_flat room (Nat.le_zero.mp shallow) none rest
  | succ depth induction =>
      rw [decodeAt]
      by_cases flat : data.height = 0
      · exact decodeWith_encode_of_flat room flat _ rest
      cases data with
      | list items =>
          simp only [hasRoom, Bool.and_eq_true, decide_eq_true_eq] at room
          have below := Data.heightOfItems_le_iff.mp (Nat.le_of_succ_le_succ shallow)
          have took := takeMany_flatMap (fun item member =>
            induction (itemsHaveRoom_iff.mp room.2 item member) (below item member)) rest
          rw [encode, List.append_assoc, (announces_list room.1).decodeWith_eq, takeBody,
            encodeItems_eq]
          simp [took]
      | map entries =>
          simp only [hasRoom, Bool.and_eq_true, decide_eq_true_eq] at room
          have below := Data.heightOfEntries_le_iff.mp (Nat.le_of_succ_le_succ shallow)
          have each : ∀ entry ∈ entries, ∀ rest,
              takePair (decodeAt depth) (encode entry.1 ++ encode entry.2 ++ rest) =
                some (entry, rest) := by
            intro entry member
            have roomy := entriesHaveRoom_iff.mp room.2 entry member
            exact takePair_append (induction roomy.1 (below entry member).1)
              (induction roomy.2 (below entry member).2)
          have took := takeMany_flatMap each rest
          rw [encode, List.append_assoc, (announces_map room.1).decodeWith_eq, takeBody,
            encodeEntries_eq]
          simp [took]
      | extension => cases room
      | null | bool | unsigned | signed | fraction | text | unpairedText | bytes =>
          exact absurd rfl flat

/-! ### Nothing shorter is read as the same -/

/-- Whether a reader takes all stored data from at least as many bytes as it is written in. -/
def Needs {α : Type} (take : List UInt8 → Option (α × List UInt8)) (write : α → List UInt8)
    (stored : α → Prop) : Prop :=
  ∀ bytes item rest, take bytes = some (item, rest) → stored item →
    (write item).length + rest.length ≤ bytes.length

theorem Needs.takeMany {α : Type} {take : List UInt8 → Option (α × List UInt8)}
    {write : α → List UInt8} {stored : α → Prop} {count : Nat} {items : List α}
    (needs : Needs take write stored)
    (took : takeMany take count bytes = some (items, rest)) (all : ∀ item ∈ items, stored item) :
    items.length = count ∧ (items.flatMap write).length + rest.length ≤ bytes.length := by
  induction count generalizing bytes items with
  | zero =>
      cases took
      simp
  | succ count induction =>
      simp only [MessagePack.takeMany, Option.bind_eq_bind, Option.bind_eq_some_iff,
        Option.pure_def, Option.some.injEq, Prod.mk.injEq, Prod.exists] at took
      rcases took with ⟨item, after, first, others, last, later, rfl, rfl⟩
      have here := needs bytes item after first (all item List.mem_cons_self)
      have rest := induction later fun item member => all item (List.mem_cons_of_mem _ member)
      simp only [List.flatMap_cons, List.length_append, List.length_cons]
      omega

theorem Needs.takePair {take : List UInt8 → Option (Data × List UInt8)}
    (needs : Needs take encode (hasRoom · = true)) :
    Needs (takePair take) (fun entry => encode entry.1 ++ encode entry.2)
      (fun entry => hasRoom entry.1 = true ∧ hasRoom entry.2 = true) := by
  intro bytes entry rest took room
  simp only [MessagePack.takePair, Option.bind_eq_bind, Option.bind_eq_some_iff, Option.pure_def,
    Option.some.injEq, Prod.mk.injEq, Prod.exists] at took
  rcases took with ⟨key, after, first, value, last, second, rfl, rfl⟩
  have keyNeeds := needs bytes key after first room.1
  have valueNeeds := needs after value last second room.2
  simp only [List.length_append]
  omega

theorem length_encode_of_takeBody {below : Option (List UInt8 → Option (Data × List UInt8))}
    {after : List UInt8} (inner : ∀ take ∈ below, Needs take encode (hasRoom · = true))
    (body : takeBody below header after = some (data, rest)) (room : hasRoom data = true) :
    (encode data).length + rest.length ≤ header.written.length + after.length := by
  cases header with
  | value other =>
      cases body
      exact le_rfl
  | text length =>
      simp only [takeBody, Option.bind_eq_bind, Option.bind_eq_some_iff, Option.pure_def,
        Option.some.injEq, Prod.mk.injEq, Prod.exists] at body
      rcases body with ⟨taken, last, took, rfl, rfl⟩
      rcases eq_of_takeBytes took with ⟨rfl, rfl⟩
      rw [textOfBytes] at room ⊢
      split at room
      case h_1 text read =>
        rw [Text.Utf8.eq_of_decode? read, encode, String.toList_ofList, Header.written]
        simp only [List.length_append]
        omega
      case h_2 => cases room
  | bytes length =>
      simp only [takeBody, Option.bind_eq_bind, Option.bind_eq_some_iff, Option.pure_def,
        Option.some.injEq, Prod.mk.injEq, Prod.exists] at body
      rcases body with ⟨taken, last, -, rfl, -⟩
      cases room
  | extension length =>
      simp only [takeBody, Option.bind_eq_bind, Option.bind_eq_some_iff, Option.pure_def,
        Option.some.injEq, Prod.mk.injEq, Prod.exists] at body
      rcases body with ⟨take, -, taken, last, -, rfl, -⟩
      cases room
  | list length =>
      simp only [takeBody, Option.bind_eq_bind, Option.bind_eq_some_iff, Option.pure_def,
        Option.some.injEq, Prod.mk.injEq, Prod.exists] at body
      rcases body with ⟨take, below, items, last, took, rfl, rfl⟩
      simp only [hasRoom, Bool.and_eq_true] at room
      rcases (inner take below).takeMany took (itemsHaveRoom_iff.mp room.2) with ⟨rfl, short⟩
      rw [Header.written, encode, encodeItems_eq, List.length_append]
      omega
  | map length =>
      simp only [takeBody, Option.bind_eq_bind, Option.bind_eq_some_iff, Option.pure_def,
        Option.some.injEq, Prod.mk.injEq, Prod.exists] at body
      rcases body with ⟨take, below, entries, last, took, rfl, rfl⟩
      simp only [hasRoom, Bool.and_eq_true] at room
      rcases (inner take below).takePair.takeMany took (entriesHaveRoom_iff.mp room.2) with
        ⟨rfl, short⟩
      rw [Header.written, encode, encodeEntries_eq, List.length_append]
      omega

theorem needs_decodeWith {below : Option (List UInt8 → Option (Data × List UInt8))}
    (inner : ∀ take ∈ below, Needs take encode (hasRoom · = true)) :
    Needs (decodeWith below) encode (hasRoom · = true) := by
  intro bytes data rest decoded room
  cases bytes with
  | nil => cases decoded
  | cons first bytes =>
      simp only [decodeWith, Option.bind_eq_bind, Option.bind_eq_some_iff, Prod.exists] at decoded
      rcases decoded with ⟨header, after, announced, body⟩
      have bodyShort := length_encode_of_takeBody inner body room
      have headerShort := length_written_le announced (by
        rintro other rfl
        cases body
        exact room)
      rw [List.length_cons]
      omega

theorem needs_decodeAt (depth : Nat) : Needs (decodeAt depth) encode (hasRoom · = true) := by
  induction depth with
  | zero => exact needs_decodeWith (by simp)
  | succ depth induction =>
      apply needs_decodeWith
      intro take below
      cases below
      exact induction

end

/-! ### Data that can be stored -/

/-- Whether data can be stored and read again, given how many levels may be descended. -/
structure Storable (depth : Nat) (data : Data) : Prop where
  room : hasRoom data = true
  shallow : data.height ≤ depth

theorem storable_named_iff {depth : Nat} {fields : List (String × Data)} :
    Storable depth (Data.named fields) ↔
      fields.length < capacity 4 ∧ ∃ below, depth = below + 1 ∧
        ∀ field ∈ fields, hasRoom (.text field.1) = true ∧ Storable below field.2 := by
  have room : hasRoom (Data.named fields) = true ↔ fields.length < capacity 4 ∧
      ∀ field ∈ fields, hasRoom (.text field.1) = true ∧ hasRoom field.2 = true := by
    rw [Data.named, hasRoom, Bool.and_eq_true, decide_eq_true_eq, List.length_map,
      entriesHaveRoom_iff, List.forall_mem_map]
  constructor
  · rintro ⟨roomy, shallow⟩
    rcases room.mp roomy with ⟨short, each⟩
    rcases Data.height_named_le_iff.mp shallow with ⟨below, rfl, heights⟩
    exact ⟨short, below, rfl, fun field member =>
      ⟨(each field member).1, (each field member).2, heights field member⟩⟩
  · rintro ⟨short, below, rfl, each⟩
    refine ⟨room.mpr ⟨short, fun field member => ?_⟩, ?_⟩
    · exact ⟨(each field member).1, (each field member).2.room⟩
    · exact Data.height_named_le_iff.mpr ⟨below, rfl, fun field member =>
        (each field member).2.shallow⟩

theorem storable_ofTable_iff {α : Type} {depth : Nat} {write : α → Data} {table : Table α} :
    Storable depth (Data.ofTable write table) ↔
      table.size < capacity 4 ∧ ∃ below, depth = below + 1 ∧
        ∀ entry ∈ table.entries,
          hasRoom (.text entry.1) = true ∧ Storable below (write entry.2) := by
  rw [Data.ofTable_eq, storable_named_iff, List.length_map]
  simp only [List.forall_mem_map]
  rfl

theorem Storable.decode_encode {data : Data} (storable : Storable depth data) :
    decode (encode data) = some data := by
  have read := decodeAt_encode storable.room (Nat.le_succ_of_le storable.shallow) []
  rw [List.append_nil] at read
  rw [decode, read, Option.map_some]

theorem Storable.length_encode_le {data : Data} {bytes : List UInt8}
    (storable : Storable depth data) (read : decode bytes = some data) :
    (encode data).length ≤ bytes.length := by
  rcases Option.map_eq_some_iff.mp read with ⟨⟨_, rest⟩, decoded, rfl⟩
  exact (Nat.le_add_right _ _).trans (needs_decodeAt _ bytes _ rest decoded storable.room)

end UrlRouting.MessagePack
