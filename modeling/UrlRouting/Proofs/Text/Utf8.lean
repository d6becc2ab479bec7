import UrlRouting.Text.Utf8

/-!
UTF-8 reads back what it writes: the bytes of a character announce it, whatever bytes follow. It
accepts nothing else, for no character has a second spelling.
-/

namespace UrlRouting.Text.Utf8

theorem toNat_toUInt8 {value : Nat} (small : value < 256) : value.toUInt8.toNat = value :=
  UInt8.toNat_ofNat_of_lt' small

private theorem next_of_lead {first second : Nat} {lead : Lead} {rest : List UInt8}
    (large : 0x80 ≤ first) (firstByte : first < 256) (secondByte : second < 256)
    (announced : lead? first.toUInt8 = some lead) (low : lead.low ≤ second)
    (high : second ≤ lead.high) :
    next first.toUInt8 (second.toUInt8 :: rest) =
      continueChar (lead.bits * 64 + (second - 0x80)) lead.more rest := by
  have notAscii : ¬ first.toUInt8 < 0x80 := by
    rw [UInt8.lt_iff_toNat_lt, toNat_toUInt8 firstByte]
    exact Nat.not_lt.mpr large
  rw [next, if_neg notAscii, announced]
  simp only [toNat_toUInt8 secondByte]
  rw [if_pos ⟨low, high⟩]

private theorem continueChar_tail (bits more : Nat) {byte : Nat} (small : byte < 64)
    (rest : List UInt8) :
    continueChar bits (more + 1) ((0x80 + byte).toUInt8 :: rest) =
      continueChar (bits * 64 + byte) more rest := by
  rw [continueChar, toNat_toUInt8 (by omega), if_pos (by omega), Nat.add_sub_cancel_left]

variable {code : Nat}

private theorem next_ascii (ascii : code < 0x80) (rest : List UInt8) :
    next code.toUInt8 rest = (some (Char.ofNat code), rest) := by
  have below : code.toUInt8 < 0x80 := by
    rw [UInt8.lt_iff_toNat_lt, toNat_toUInt8 (by omega)]
    exact ascii
  rw [next, if_pos below, toNat_toUInt8 (by omega)]

private theorem next_two (long : 0x80 ≤ code) (short : code < 0x800) (rest : List UInt8) :
    next (0xC0 + code / 64).toUInt8 ((0x80 + code % 64).toUInt8 :: rest) =
      (some (Char.ofNat code), rest) := by
  have announced : lead? (0xC0 + code / 64).toUInt8 = some ⟨code / 64, 0x80, 0xBF, 0⟩ := by
    simp only [lead?, toNat_toUInt8 (show 0xC0 + code / 64 < 256 by omega)]
    rw [if_neg (by omega), if_pos (by omega), Nat.add_sub_cancel_left]
  rw [next_of_lead (by omega) (by omega) (by omega) announced (by simp) (by simp; omega),
    Nat.add_sub_cancel_left, Nat.div_add_mod' code 64, continueChar]

private theorem lead?_three (long : 0x800 ≤ code) (short : code < 0x10000)
    (valid : code < 0xD800 ∨ 0xDFFF < code) :
    ∃ low high, lead? (0xE0 + code / 4096).toUInt8 = some ⟨code / 4096, low, high, 1⟩ ∧
      low ≤ 0x80 + code / 64 % 64 ∧ 0x80 + code / 64 % 64 ≤ high := by
  simp only [lead?, toNat_toUInt8 (show 0xE0 + code / 4096 < 256 by omega)]
  rw [if_neg (by omega), if_neg (by omega)]
  split
  case isTrue => exact ⟨0xA0, 0xBF, by congr 2; omega, by omega, by omega⟩
  case isFalse =>
    split
    case isTrue => exact ⟨0x80, 0x9F, by congr 2; omega, by omega, by omega⟩
    case isFalse =>
      rw [if_pos (by omega), Nat.add_sub_cancel_left]
      exact ⟨0x80, 0xBF, rfl, by omega, by omega⟩

private theorem next_three (long : 0x800 ≤ code) (short : code < 0x10000)
    (valid : code < 0xD800 ∨ 0xDFFF < code) (rest : List UInt8) :
    next (0xE0 + code / 4096).toUInt8
        ((0x80 + code / 64 % 64).toUInt8 :: (0x80 + code % 64).toUInt8 :: rest) =
      (some (Char.ofNat code), rest) := by
  have whole : (code / 4096 * 64 + code / 64 % 64) * 64 + code % 64 = code := by omega
  rcases lead?_three long short valid with ⟨low, high, announced, aboveLow, belowHigh⟩
  rw [next_of_lead (by omega) (by omega) (by omega) announced aboveLow belowHigh,
    Nat.add_sub_cancel_left, continueChar_tail _ _ (by omega), continueChar, whole]

private theorem lead?_four (long : 0x10000 ≤ code) (valid : code < 0x110000) :
    ∃ low high, lead? (0xF0 + code / 262144).toUInt8 = some ⟨code / 262144, low, high, 2⟩ ∧
      low ≤ 0x80 + code / 4096 % 64 ∧ 0x80 + code / 4096 % 64 ≤ high := by
  simp only [lead?, toNat_toUInt8 (show 0xF0 + code / 262144 < 256 by omega)]
  rw [if_neg (by omega), if_neg (by omega), if_neg (by omega), if_neg (by omega),
    if_neg (by omega)]
  split
  case isTrue => exact ⟨0x90, 0xBF, by congr 2; omega, by omega, by omega⟩
  case isFalse =>
    split
    case isTrue =>
      rw [Nat.add_sub_cancel_left]
      exact ⟨0x80, 0xBF, rfl, by omega, by omega⟩
    case isFalse =>
      rw [if_pos (by omega)]
      exact ⟨0x80, 0x8F, by congr 2; omega, by omega, by omega⟩

private theorem next_four (long : 0x10000 ≤ code) (valid : code < 0x110000) (rest : List UInt8) :
    next (0xF0 + code / 262144).toUInt8
        ((0x80 + code / 4096 % 64).toUInt8 :: (0x80 + code / 64 % 64).toUInt8 ::
          (0x80 + code % 64).toUInt8 :: rest) = (some (Char.ofNat code), rest) := by
  have whole : ((code / 262144 * 64 + code / 4096 % 64) * 64 + code / 64 % 64) * 64 +
      code % 64 = code := by omega
  rcases lead?_four long valid with ⟨low, high, announced, aboveLow, belowHigh⟩
  rw [next_of_lead (by omega) (by omega) (by omega) announced aboveLow belowHigh,
    Nat.add_sub_cancel_left, continueChar_tail _ _ (by omega),
    continueChar_tail _ _ (by omega), continueChar, whole]

theorem characters_encodeChar_append (character : Char) (rest : List UInt8) :
    characters (encodeChar character ++ rest) = some character :: characters rest := by
  have valid : character.toNat < 0xD800 ∨ (0xDFFF < character.toNat ∧ character.toNat < 0x110000) :=
    character.valid
  have same : Char.ofNat character.toNat = character := Char.ofNat_toNat character
  simp only [encodeChar]
  generalize character.toNat = code at *
  -- One case for each number of bytes, as they are written.
  split
  case isTrue ascii =>
    rw [List.singleton_append, characters, next_ascii ascii, same]
  case isFalse =>
    split
    case isTrue =>
      rw [List.cons_append, List.singleton_append, characters, next_two (by omega) (by omega), same]
    case isFalse =>
      split
      case isTrue =>
        rw [List.cons_append, List.cons_append, List.singleton_append, characters,
          next_three (by omega) (by omega) (by omega), same]
      case isFalse =>
        rw [List.cons_append, List.cons_append, List.cons_append, List.singleton_append, characters,
          next_four (by omega) (by omega), same]

theorem characters_encode (text : List Char) : characters (encode text) = text.map some := by
  induction text with
  | nil => rw [encode, List.flatMap_nil, characters, List.map_nil]
  | cons character rest induction =>
      rw [encode, List.flatMap_cons, ← encode, characters_encodeChar_append, induction,
        List.map_cons]

theorem decodeLossy_encode (text : List Char) : decodeLossy (encode text) = text := by
  rw [decodeLossy, characters_encode, List.map_map]
  simp [Function.comp_def]

theorem decode?_encode (text : List Char) : decode? (encode text) = some text := by
  rw [decode?, characters_encode, List.mapM_map]
  simpa using @List.mapM_pure Option _ _ _ _ text id

theorem encode_append (left right : List Char) :
    encode (left ++ right) = encode left ++ encode right :=
  List.flatMap_append

theorem toNat_of_mem_encodeChar {character : Char} {byte : UInt8}
    (member : byte ∈ encodeChar character) (ascii : byte.toNat < 0x80) :
    character.toNat = byte.toNat := by
  have bound : character.toNat < 0x110000 := by
    rcases character.valid with below | above
    · exact Nat.lt_trans below (by decide)
    · exact above.2
  have large : ∀ value, 0x80 ≤ value → value < 256 → byte ≠ value.toUInt8 := by
    intro value low high equal
    rw [equal, toNat_toUInt8 high] at ascii
    omega
  simp only [encodeChar] at member
  generalize character.toNat = code at *
  split at member
  case isTrue small =>
    rw [List.mem_singleton] at member
    rw [member, toNat_toUInt8 (by omega)]
  case isFalse =>
    split at member
    case isTrue =>
      simp only [List.mem_cons, List.not_mem_nil, or_false] at member
      rcases member with equal | equal <;> exact absurd equal (large _ (by omega) (by omega))
    case isFalse =>
      split at member
      case isTrue =>
        simp only [List.mem_cons, List.not_mem_nil, or_false] at member
        rcases member with equal | equal | equal <;>
          exact absurd equal (large _ (by omega) (by omega))
      case isFalse =>
        simp only [List.mem_cons, List.not_mem_nil, or_false] at member
        rcases member with equal | equal | equal | equal <;>
          exact absurd equal (large _ (by omega) (by omega))

theorem encode_ne_nil (character : Char) (rest : List Char) : encode (character :: rest) ≠ [] := by
  rw [encode, List.flatMap_cons, encodeChar]
  split
  · simp
  · split
    · simp
    · split <;> simp

/-! ### Bytes that are accepted -/

private theorem toUInt8_eq {value : Nat} {byte : UInt8} (same : value = byte.toNat) :
    value.toUInt8 = byte := by
  rw [same]
  exact UInt8.ofNat_toNat

private theorem eq_of_continueChar {bits more : Nat} {rest others : List UInt8} {character : Char}
    (read : continueChar bits (more + 1) rest = (some character, others)) :
    ∃ byte tail, rest = byte :: tail ∧ 0x80 ≤ byte.toNat ∧ byte.toNat ≤ 0xBF ∧
      continueChar (bits * 64 + (byte.toNat - 0x80)) more tail = (some character, others) := by
  cases rest with
  | nil => cases read
  | cons byte tail =>
      rw [continueChar] at read
      split at read
      case isTrue continues => exact ⟨byte, tail, rfl, continues.1, continues.2, read⟩
      case isFalse => cases read

/-- A first byte announces one, two or three more, and the second is such that the code is neither
overlong nor out of range. -/
private theorem lead?_cases {first : UInt8} {lead : Lead} (announced : lead? first = some lead) :
    (0xC2 ≤ first.toNat ∧ first.toNat < 0xE0 ∧ lead = ⟨first.toNat - 0xC0, 0x80, 0xBF, 0⟩) ∨
    (0xE0 ≤ first.toNat ∧ first.toNat < 0xF0 ∧ lead.bits = first.toNat - 0xE0 ∧
      lead.more = 1 ∧ 0x80 ≤ lead.low ∧ lead.high ≤ 0xBF ∧
      (first.toNat = 0xE0 → lead.low = 0xA0) ∧ (first.toNat = 0xED → lead.high = 0x9F)) ∨
    (0xF0 ≤ first.toNat ∧ first.toNat < 0xF5 ∧ lead.bits = first.toNat - 0xF0 ∧
      lead.more = 2 ∧ 0x80 ≤ lead.low ∧ lead.high ≤ 0xBF ∧
      (first.toNat = 0xF0 → lead.low = 0x90) ∧ (first.toNat = 0xF4 → lead.high = 0x8F)) := by
  simp only [lead?] at announced
  generalize first.toNat = byte at *
  repeat' split at announced
  all_goals simp only [reduceCtorEq, Option.some.injEq] at announced
  all_goals rw [← announced]
  all_goals simp
  all_goals omega

private theorem toNat_ofNat_of_valid (valid : code.isValidChar) :
    (Char.ofNat code).toNat = code := by
  rw [Char.ofNat, dif_pos valid]
  rfl

variable {first second third fourth : UInt8}

private theorem encodeChar_two (low : 0xC2 ≤ first.toNat) (high : first.toNat < 0xE0)
    (secondLow : 0x80 ≤ second.toNat) (secondHigh : second.toNat ≤ 0xBF) :
    encodeChar (Char.ofNat ((first.toNat - 0xC0) * 64 + (second.toNat - 0x80))) =
      [first, second] := by
  have code := toNat_ofNat_of_valid
    (show ((first.toNat - 0xC0) * 64 + (second.toNat - 0x80)).isValidChar from .inl (by omega))
  simp only [encodeChar, code]
  rw [if_neg (by omega), if_pos (by omega)]
  simp only [List.cons.injEq, and_true]
  refine ⟨toUInt8_eq ?_, toUInt8_eq ?_⟩ <;> omega

private theorem encodeChar_three (low : 0xE0 ≤ first.toNat) (high : first.toNat < 0xF0)
    (secondLow : 0x80 ≤ second.toNat) (secondHigh : second.toNat ≤ 0xBF)
    (long : first.toNat = 0xE0 → 0xA0 ≤ second.toNat)
    (valid : first.toNat = 0xED → second.toNat ≤ 0x9F)
    (thirdLow : 0x80 ≤ third.toNat) (thirdHigh : third.toNat ≤ 0xBF) :
    encodeChar (Char.ofNat (((first.toNat - 0xE0) * 64 + (second.toNat - 0x80)) * 64 +
      (third.toNat - 0x80))) = [first, second, third] := by
  have code := toNat_ofNat_of_valid
    (show (((first.toNat - 0xE0) * 64 + (second.toNat - 0x80)) * 64 +
        (third.toNat - 0x80)).isValidChar by
      by_cases below : first.toNat < 0xED ∨ first.toNat = 0xED
      · exact .inl (by omega)
      · exact .inr (by omega))
  simp only [encodeChar, code]
  rw [if_neg (by omega), if_neg (by omega), if_pos (by omega)]
  simp only [List.cons.injEq, and_true]
  refine ⟨toUInt8_eq ?_, toUInt8_eq ?_, toUInt8_eq ?_⟩ <;> omega

private theorem encodeChar_four (low : 0xF0 ≤ first.toNat) (high : first.toNat < 0xF5)
    (secondLow : 0x80 ≤ second.toNat) (secondHigh : second.toNat ≤ 0xBF)
    (long : first.toNat = 0xF0 → 0x90 ≤ second.toNat)
    (valid : first.toNat = 0xF4 → second.toNat ≤ 0x8F)
    (thirdLow : 0x80 ≤ third.toNat) (thirdHigh : third.toNat ≤ 0xBF)
    (fourthLow : 0x80 ≤ fourth.toNat) (fourthHigh : fourth.toNat ≤ 0xBF) :
    encodeChar (Char.ofNat ((((first.toNat - 0xF0) * 64 + (second.toNat - 0x80)) * 64 +
      (third.toNat - 0x80)) * 64 + (fourth.toNat - 0x80))) = [first, second, third, fourth] := by
  have code := toNat_ofNat_of_valid
    (show ((((first.toNat - 0xF0) * 64 + (second.toNat - 0x80)) * 64 +
        (third.toNat - 0x80)) * 64 + (fourth.toNat - 0x80)).isValidChar from .inr (by omega))
  simp only [encodeChar, code]
  rw [if_neg (by omega), if_neg (by omega), if_neg (by omega)]
  simp only [List.cons.injEq, and_true]
  refine ⟨toUInt8_eq ?_, toUInt8_eq ?_, toUInt8_eq ?_, toUInt8_eq ?_⟩ <;> omega

theorem eq_of_next {rest others : List UInt8} {character : Char}
    (read : next first rest = (some character, others)) :
    first :: rest = encodeChar character ++ others := by
  rw [next] at read
  split at read
  case isTrue ascii =>
    have small : first.toNat < 0x80 := UInt8.lt_iff_toNat_lt.mp ascii
    have code := toNat_ofNat_of_valid (show first.toNat.isValidChar from .inl (by omega))
    simp only [Prod.mk.injEq, Option.some.injEq] at read
    rcases read with ⟨rfl, rfl⟩
    simp only [encodeChar, code]
    rw [if_pos small, toUInt8_eq rfl, List.singleton_append]
  case isFalse =>
    split at read
    case h_1 => cases read
    case h_2 lead announced =>
      split at read
      case h_1 => cases read
      case h_2 second tail =>
        split at read
        case isFalse => cases read
        case isTrue within =>
          -- One case for each number of bytes that the first one announces.
          rcases lead?_cases announced with
            ⟨low, high, rfl⟩ |
            ⟨low, high, bits, more, above, below, long, valid⟩ |
            ⟨low, high, bits, more, above, below, long, valid⟩
          · simp only [continueChar, Prod.mk.injEq, Option.some.injEq] at read
            rcases read with ⟨rfl, rfl⟩
            rw [encodeChar_two low high within.1 within.2]
            rfl
          · rw [more, bits] at read
            rcases eq_of_continueChar read with ⟨third, rest, rfl, thirdLow, thirdHigh, read⟩
            simp only [continueChar, Prod.mk.injEq, Option.some.injEq] at read
            rcases read with ⟨rfl, rfl⟩
            rw [encodeChar_three low high (by omega) (by omega) (by omega) (by omega) thirdLow
              thirdHigh]
            rfl
          · rw [more, bits] at read
            rcases eq_of_continueChar read with ⟨third, rest, rfl, thirdLow, thirdHigh, read⟩
            rcases eq_of_continueChar read with ⟨fourth, rest, rfl, fourthLow, fourthHigh, read⟩
            simp only [continueChar, Prod.mk.injEq, Option.some.injEq] at read
            rcases read with ⟨rfl, rfl⟩
            rw [encodeChar_four low high (by omega) (by omega) (by omega) (by omega) thirdLow
              thirdHigh fourthLow fourthHigh]
            rfl

theorem eq_of_decode? {bytes : List UInt8} {text : List Char}
    (read : decode? bytes = some text) : bytes = encode text := by
  rw [decode?] at read
  induction bytes using characters.induct generalizing text with
  | case1 =>
      rw [characters] at read
      cases read
      rfl
  | case2 first rest induction =>
      rw [characters, List.mapM_cons] at read
      simp only [id, Option.bind_eq_bind, Option.bind_eq_some_iff, Option.pure_def,
        Option.some.injEq] at read
      rcases read with ⟨character, taken, others, later, rfl⟩
      have whole := @eq_of_next first rest (next first rest).2 character (Prod.ext taken rfl)
      rw [whole, encode, List.flatMap_cons, ← encode, ← induction later]

end UrlRouting.Text.Utf8
