import Mathlib.Data.List.Forall2
import UrlRouting.Encoding
import UrlRouting.Proofs.Text.Utf8

/-!
What written texts stand for. A text spells another one if reading gives that one whatever is
written after it, so spelled texts can be put together. Literal text without marks of the encoding
spells itself, and a value that was written spells the value.
-/

namespace UrlRouting

namespace Text.Percent

theorem decodeBytes_cons_of_ne {byte : UInt8} (different : byte ≠ 37) (rest : List UInt8) :
    decodeBytes (byte :: rest) = byte :: decodeBytes rest := by
  cases rest with
  | nil => rfl
  | cons second others =>
      cases others with
      | nil => rfl
      | cons third others => rw [decodeBytes, if_neg different]

theorem decodeBytes_append_of_notMem {bytes : List UInt8} (absent : 37 ∉ bytes)
    (rest : List UInt8) : decodeBytes (bytes ++ rest) = bytes ++ decodeBytes rest := by
  induction bytes with
  | nil => rfl
  | cons byte others induction =>
      rw [List.mem_cons, not_or] at absent
      rw [List.cons_append, decodeBytes_cons_of_ne (Ne.symm absent.1), induction absent.2,
        List.cons_append]

theorem decodeBytes_triple {high low : UInt8} {upper lower : Nat}
    (first : digitValue? high = some upper) (second : digitValue? low = some lower)
    (rest : List UInt8) :
    decodeBytes (37 :: high :: low :: rest) = (upper * 16 + lower).toUInt8 :: decodeBytes rest := by
  rw [decodeBytes, if_pos rfl, first, second]

end Text.Percent

namespace Encoding

open Text

def withSpaces (encoding : Encoding) (written : List Char) : List Char :=
  match encoding with
  | raw => written
  | legacy => written.map fun character => if character = '+' then ' ' else character

theorem toList_decode (encoding : Encoding) (path : String) :
    (encoding.decode path).toList =
      Utf8.decodeLossy (Percent.decodeBytes (Utf8.encode (encoding.withSpaces path.toList))) := by
  cases encoding with
  | raw => exact String.toList_ofList
  | legacy => exact String.toList_ofList

theorem withSpaces_append (encoding : Encoding) (left right : List Char) :
    encoding.withSpaces (left ++ right) =
      encoding.withSpaces left ++ encoding.withSpaces right := by
  cases encoding with
  | raw => rfl
  | legacy => exact List.map_append

def Spells (encoding : Encoding) (written plain : List Char) : Prop :=
  ∀ rest, Percent.decodeBytes (Utf8.encode (encoding.withSpaces written) ++ rest) =
    Utf8.encode plain ++ Percent.decodeBytes rest

variable {encoding : Encoding}

theorem spells_nil : encoding.Spells [] [] := by
  cases encoding <;> exact fun _ => rfl

theorem Spells.append {first second firstPlain secondPlain : List Char}
    (left : encoding.Spells first firstPlain) (right : encoding.Spells second secondPlain) :
    encoding.Spells (first ++ second) (firstPlain ++ secondPlain) := by
  intro rest
  rw [withSpaces_append, Utf8.encode_append, Utf8.encode_append, List.append_assoc, left, right,
    List.append_assoc]

theorem Spells.decode_eq {written plain : List Char} (spells : encoding.Spells written plain) :
    encoding.decode (String.ofList written) = String.ofList plain := by
  apply String.toList_injective
  have whole := spells []
  rw [List.append_nil, show Percent.decodeBytes [] = [] from rfl, List.append_nil] at whole
  rw [toList_decode, String.toList_ofList, String.toList_ofList, whole, Utf8.decodeLossy_encode]

/-! ### Literal text -/

/-- Whether a text holds no mark that the encoding reads as something else. -/
def IsPlain (encoding : Encoding) (text : List Char) : Prop :=
  '%' ∉ text ∧ (encoding = legacy → '+' ∉ text)

theorem IsPlain.of_subset {text part : List Char} (plain : encoding.IsPlain text)
    (inside : ∀ character ∈ part, character ∈ text) : encoding.IsPlain part :=
  ⟨fun member => plain.1 (inside _ member), fun legacy member => plain.2 legacy (inside _ member)⟩

theorem spells_of_isPlain {text : List Char} (plain : encoding.IsPlain text) :
    encoding.Spells text text := by
  have same : encoding.withSpaces text = text := by
    cases encoding with
    | raw => rfl
    | legacy =>
        rw [withSpaces]
        conv => rhs; rw [← List.map_id text]
        apply List.map_congr_left
        intro character member
        have different : character ≠ '+' := fun plus => plain.2 rfl (plus ▸ member)
        rw [if_neg different, id]
  intro rest
  rw [same]
  apply Percent.decodeBytes_append_of_notMem
  intro member
  rcases List.mem_flatMap.mp member with ⟨character, inText, inBytes⟩
  have code := Utf8.toNat_of_mem_encodeChar inBytes (by decide)
  have percent : character = '%' := Char.ext (UInt32.toNat_inj.mp code)
  exact plain.1 (percent ▸ inText)

theorem spells_slash (encoding : Encoding) : encoding.Spells ['/'] ['/'] :=
  spells_of_isPlain ⟨by simp, by simp⟩

theorem spells_joinFields {written plain : List (List Char)}
    (each : List.Forall₂ encoding.Spells written plain) :
    encoding.Spells (joinFields '/' written) (joinFields '/' plain) := by
  induction each with
  | nil => exact spells_nil
  | @cons first firstPlain others othersPlain here later induction =>
      cases later with
      | nil => exact here
      | cons second rest =>
          exact here.append ((spells_slash encoding).append induction)

/-! ### Written values -/

def byteText (encoding : Encoding) (byte : UInt8) : List Char :=
  match encoding with
  | raw => if Percent.isUnreserved byte then [Char.ofNat byte.toNat] else Percent.triple byte
  | legacy =>
      if byte = 32 then ['+']
      else if Form.isKept byte then [Char.ofNat byte.toNat] else Percent.triple byte

theorem encodeChars_eq (encoding : Encoding) (value : List Char) :
    encoding.encodeChars value = (Utf8.encode value).flatMap encoding.byteText := by
  cases encoding with
  | raw => rfl
  | legacy =>
      rw [encodeChars, Form.encode]
      congr 1
      funext byte
      rw [byteText, Percent.encode, List.flatMap_singleton]

def digitByte (value : Nat) : UInt8 :=
  (hexDigit value).toNat.toUInt8

theorem digitValue?_digitByte {value : Nat} (small : value < 16) :
    Percent.digitValue? (digitByte value) = some value := by
  have every : ∀ value : Fin 16, Percent.digitValue? (digitByte value) = some value.val := by
    decide
  exact every ⟨value, small⟩

def isWritten (character : Char) : Bool :=
  character.isAlphanum || ['%', '*', '+', '-', '.', '_', '~'].contains character

theorem byteText_cases (encoding : Encoding) (byte : UInt8) :
    encoding.byteText byte ≠ [] ∧ (encoding.byteText byte).all isWritten = true ∧
      ((byte ≠ 37 ∧ Utf8.encode (encoding.withSpaces (encoding.byteText byte)) = [byte]) ∨
        Utf8.encode (encoding.withSpaces (encoding.byteText byte)) =
          [37, digitByte (byte.toNat / 16), digitByte (byte.toNat % 16)]) := by
  have every : ∀ code : Fin 256, ∀ encoding ∈ [raw, legacy],
      byteText encoding code.val.toUInt8 ≠ [] ∧
        (byteText encoding code.val.toUInt8).all isWritten = true ∧
        ((code.val.toUInt8 ≠ 37 ∧
            Utf8.encode (encoding.withSpaces (encoding.byteText code.val.toUInt8)) =
              [code.val.toUInt8]) ∨
          Utf8.encode (encoding.withSpaces (encoding.byteText code.val.toUInt8)) =
            [37, digitByte (code.val.toUInt8.toNat / 16),
              digitByte (code.val.toUInt8.toNat % 16)]) := by
    decide +kernel
  have here := every ⟨byte.toNat, byte.toNat_lt⟩ encoding (by cases encoding <;> simp)
  rwa [show byte.toNat.toUInt8 = byte from UInt8.ofNat_toNat] at here

theorem decodeBytes_byteText (encoding : Encoding) (byte : UInt8) (rest : List UInt8) :
    Percent.decodeBytes
        (Utf8.encode (encoding.withSpaces (encoding.byteText byte)) ++ rest) =
      byte :: Percent.decodeBytes rest := by
  have small := byte.toNat_lt
  rcases (byteText_cases encoding byte).2.2 with ⟨different, itself⟩ | triple
  · rw [itself, List.singleton_append, Percent.decodeBytes_cons_of_ne different]
  · rw [triple, List.cons_append, List.cons_append, List.singleton_append,
      Percent.decodeBytes_triple (digitValue?_digitByte (by omega))
        (digitValue?_digitByte (by omega)), Nat.div_add_mod' byte.toNat 16]
    rw [show byte.toNat.toUInt8 = byte from UInt8.ofNat_toNat]

theorem spells_encodeChars (encoding : Encoding) (value : List Char) :
    encoding.Spells (encoding.encodeChars value) value := by
  intro rest
  rw [encodeChars_eq]
  generalize Utf8.encode value = bytes
  induction bytes with
  | nil => cases encoding <;> rfl
  | cons byte others induction =>
      rw [List.flatMap_cons, withSpaces_append, Utf8.encode_append, List.append_assoc,
        decodeBytes_byteText, induction, List.cons_append]

theorem forall₂_spells_encodeChars (encoding : Encoding) (values : List (List Char)) :
    List.Forall₂ encoding.Spells (values.map encoding.encodeChars) values :=
  List.forall₂_map_left_iff.mpr
    (List.forall₂_same.mpr fun value _ => spells_encodeChars encoding value)

theorem isWritten_of_mem_encodeChars {encoding : Encoding} {value : List Char} {character : Char}
    (member : character ∈ encoding.encodeChars value) : isWritten character = true := by
  rw [encodeChars_eq] at member
  rcases List.mem_flatMap.mp member with ⟨byte, -, inByte⟩
  exact List.all_eq_true.mp (byteText_cases encoding byte).2.1 character inByte

def marks : List Char :=
  ['/', '?', '#', '&', '=', ' ']

theorem notMem_encodeChars {mark : Char} (inMarks : mark ∈ marks) (encoding : Encoding)
    (value : List Char) : mark ∉ encoding.encodeChars value := by
  have none : marks.any isWritten = false := by decide
  intro member
  exact List.any_eq_false.mp none mark inMarks (isWritten_of_mem_encodeChars member)

theorem slash_notMem_encodeChars (encoding : Encoding) (value : List Char) :
    '/' ∉ encoding.encodeChars value :=
  notMem_encodeChars (by decide) encoding value

theorem encodeChars_ne_nil (encoding : Encoding) {value : List Char} (nonempty : value ≠ []) :
    encoding.encodeChars value ≠ [] := by
  rw [encodeChars_eq]
  intro empty
  cases value with
  | nil => exact nonempty rfl
  | cons character others =>
      cases bytes : Utf8.encode (character :: others) with
      | nil => exact Utf8.encode_ne_nil character others bytes
      | cons byte rest =>
          rw [bytes, List.flatMap_cons, List.append_eq_nil_iff] at empty
          exact (byteText_cases encoding byte).1 empty.1

end Encoding

end UrlRouting
