/-!
UTF-8. `encode` writes characters as bytes; `splitAt?` cuts a text after a number of bytes;
`decode?` reads bytes that are well-formed, and `decodeLossy` reads any bytes, putting U+FFFD in the
place of each longest beginning of a character that is not completed.
-/

namespace UrlRouting.Text.Utf8

def encodeChar (character : Char) : List UInt8 :=
  let code := character.toNat
  if code < 0x80 then
    [code.toUInt8]
  else if code < 0x800 then
    [(0xC0 + code / 64).toUInt8, (0x80 + code % 64).toUInt8]
  else if code < 0x10000 then
    [(0xE0 + code / 4096).toUInt8, (0x80 + code / 64 % 64).toUInt8, (0x80 + code % 64).toUInt8]
  else
    [(0xF0 + code / 262144).toUInt8, (0x80 + code / 4096 % 64).toUInt8,
      (0x80 + code / 64 % 64).toUInt8, (0x80 + code % 64).toUInt8]

def encode (text : List Char) : List UInt8 :=
  text.flatMap encodeChar

/-- A text cut after a number of its bytes, unless that place is inside of a character or the text
is shorter. -/
def splitAt? : Nat → List Char → Option (List Char × List Char)
  | 0, text => some ([], text)
  | _ + 1, [] => none
  | size + 1, character :: rest =>
      if (encodeChar character).length ≤ size + 1 then
        (splitAt? (size + 1 - (encodeChar character).length) rest).map fun (before, after) =>
          (character :: before, after)
      else
        none

theorem append_of_splitAt? {size : Nat} {text before after : List Char}
    (cut : splitAt? size text = some (before, after)) :
    before ++ after = text ∧ (encode before).length = size := by
  fun_induction splitAt? size text generalizing before after with
  | case1 text =>
      obtain ⟨rfl, rfl⟩ := Prod.mk.inj (Option.some.inj cut)
      exact ⟨rfl, rfl⟩
  | case2 => cases cut
  | case3 size character rest fits induction =>
      obtain ⟨⟨first, last⟩, parts, equal⟩ := Option.map_eq_some_iff.mp cut
      obtain ⟨rfl, rfl⟩ := Prod.mk.inj equal
      obtain ⟨whole, length⟩ := induction parts
      refine ⟨congrArg (character :: ·) whole, ?_⟩
      simp only [encode, List.flatMap_cons, List.length_append] at length ⊢
      omega
  | case4 => cases cut

example : splitAt? 2 ['é', 'a'] = some (['é'], ['a']) := by decide

example : splitAt? 1 ['é', 'a'] = none := by decide

/-- What a first byte announces: the bits it carries, the range in which the second byte must lie,
and the number of bytes after the second. -/
structure Lead where
  bits : Nat
  low : Nat
  high : Nat
  more : Nat

/-- The announcement of a first byte of at least 0x80, if a character can begin with it. The ranges
leave out overlong forms, surrogates and codes above U+10FFFF. -/
def lead? (byte : UInt8) : Option Lead :=
  let first := byte.toNat
  if first < 0xC2 then none
  else if first < 0xE0 then some ⟨first - 0xC0, 0x80, 0xBF, 0⟩
  else if first = 0xE0 then some ⟨0, 0xA0, 0xBF, 1⟩
  else if first = 0xED then some ⟨0xD, 0x80, 0x9F, 1⟩
  else if first < 0xF0 then some ⟨first - 0xE0, 0x80, 0xBF, 1⟩
  else if first = 0xF0 then some ⟨0, 0x90, 0xBF, 2⟩
  else if first < 0xF4 then some ⟨first - 0xF0, 0x80, 0xBF, 2⟩
  else if first = 0xF4 then some ⟨4, 0x80, 0x8F, 2⟩
  else none

/-- Read the last bytes of a character whose bits so far are given: the character, or nothing if a
byte does not continue it, and the bytes that are left. -/
def continueChar (bits : Nat) : Nat → List UInt8 → Option Char × List UInt8
  | 0, rest => (some (Char.ofNat bits), rest)
  | _ + 1, [] => (none, [])
  | more + 1, byte :: rest =>
      if 0x80 ≤ byte.toNat ∧ byte.toNat ≤ 0xBF then
        continueChar (bits * 64 + (byte.toNat - 0x80)) more rest
      else
        (none, byte :: rest)

/-- Read one character from a first byte and those after it: the character, or nothing if none is
completed, and the bytes that are left. -/
def next (first : UInt8) (rest : List UInt8) : Option Char × List UInt8 :=
  if first < 0x80 then
    (some (Char.ofNat first.toNat), rest)
  else
    match lead? first with
    | none => (none, rest)
    | some lead =>
        match rest with
        | [] => (none, [])
        | second :: others =>
            if lead.low ≤ second.toNat ∧ second.toNat ≤ lead.high then
              continueChar (lead.bits * 64 + (second.toNat - 0x80)) lead.more others
            else
              (none, rest)

theorem length_continueChar_le (bits more : Nat) (rest : List UInt8) :
    (continueChar bits more rest).2.length ≤ rest.length := by
  induction more generalizing bits rest with
  | zero => simp [continueChar]
  | succ more induction =>
      cases rest with
      | nil => simp [continueChar]
      | cons byte rest =>
          unfold continueChar
          split
          · exact Nat.le_trans (induction ..) (Nat.le_succ _)
          · exact Nat.le_refl _

theorem length_next_le (first : UInt8) (rest : List UInt8) :
    (next first rest).2.length ≤ rest.length := by
  unfold next
  split
  · exact Nat.le_refl _
  · split
    · exact Nat.le_refl _
    · split
      · exact Nat.le_refl _
      · split
        · exact Nat.le_trans (length_continueChar_le ..) (Nat.le_succ _)
        · exact Nat.le_refl _

def characters : List UInt8 → List (Option Char)
  | [] => []
  | first :: rest => (next first rest).1 :: characters (next first rest).2
termination_by bytes => bytes.length
decreasing_by exact Nat.lt_succ_of_le (length_next_le first rest)

def decode? (bytes : List UInt8) : Option (List Char) :=
  (characters bytes).mapM id

def decodeLossy (bytes : List UInt8) : List Char :=
  (characters bytes).map (·.getD '\uFFFD')

end UrlRouting.Text.Utf8
