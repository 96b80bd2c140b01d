import SkPqc.Wire.Text

/-!
# Hexadecimal and base64

`bytes.hex` and `bytes.fromhex`, and the `base64` module over `binascii.a2b_base64`. The base64
decoder is CPython's non-strict one, a state machine over the position in the current group of four
digits: it skips every byte outside the alphabet and stops at the first complete padding.
-/

namespace Wire

/-! ### Hexadecimal -/

def hexDigit (n : Nat) : CodePoint := if n < 10 then codePoint (0x30 + n) else codePoint (0x57 + n)

def hexVal (c : CodePoint) : Option Nat :=
  let n := c.val
  if 0x30 ≤ n ∧ n ≤ 0x39 then some (n - 0x30)
  else if 0x61 ≤ n ∧ n ≤ 0x66 then some (n - 0x57)
  else if 0x41 ≤ n ∧ n ≤ 0x46 then some (n - 0x37)
  else none

/-- `b.hex()` -/
def hex (b : Bytes) : Str := b.flatMap fun x => [hexDigit (x.toNat / 16), hexDigit (x.toNat % 16)]

/-- The ASCII whitespace that `bytes.fromhex` skips between two bytes. -/
def isSpace (c : CodePoint) : Bool := c.val = 0x20 || (0x09 ≤ c.val && c.val ≤ 0x0D)

/-- `bytes.fromhex(s)`, where `none` is its `ValueError`. -/
def fromHex : Str → Option Bytes
  | [] => some []
  | c :: rest =>
    if isSpace c then fromHex rest
    else
      match rest with
      | [] => none
      | d :: rest =>
        match hexVal c, hexVal d with
        | some high, some low => (fromHex rest).map (UInt8.ofNat (16 * high + low) :: ·)
        | _, _ => none

theorem hexVal_hexDigit : ∀ n < 16, hexVal (hexDigit n) = some n := by decide

theorem isSpace_hexDigit : ∀ n < 16, isSpace (hexDigit n) = false := by decide

theorem fromHex_hex (b : Bytes) : fromHex (hex b) = some b := by
  induction b with
  | nil => rfl
  | cons x b ih =>
    have hx := x.toNat_lt
    have hhigh : x.toNat / 16 < 16 := by omega
    have hlow : x.toNat % 16 < 16 := by omega
    have hcons : hex (x :: b) = hexDigit (x.toNat / 16) :: hexDigit (x.toNat % 16) :: hex b := rfl
    rw [hcons, fromHex]
    simp only [isSpace_hexDigit _ hhigh, Bool.false_eq_true, if_false, hexVal_hexDigit _ hhigh,
      hexVal_hexDigit _ hlow, ih, Option.map_some]
    rw [show 16 * (x.toNat / 16) + x.toNat % 16 = x.toNat by omega, UInt8.ofNat_toNat]

/-! ### Base64 -/

def b64Alphabet : Bytes := ascii "ABCDEFGHIJKLMNOPQRSTUVWXYZabcdefghijklmnopqrstuvwxyz0123456789+/"

def b64Pad : UInt8 := 0x3D

def b64Digit (n : Nat) : UInt8 := b64Alphabet.getD n 0

/-- The value of a base64 digit, `none` outside the alphabet. -/
def b64Val (x : UInt8) : Option Nat :=
  let n := x.toNat
  if 0x41 ≤ n ∧ n ≤ 0x5A then some (n - 0x41)
  else if 0x61 ≤ n ∧ n ≤ 0x7A then some (n - 0x61 + 26)
  else if 0x30 ≤ n ∧ n ≤ 0x39 then some (n - 0x30 + 52)
  else if n = 0x2B then some 62
  else if n = 0x2F then some 63
  else none

/-- `base64.b64encode(b)` -/
def b64encode : Bytes → Bytes
  | [] => []
  | [a] => [b64Digit (a.toNat / 4), b64Digit (a.toNat % 4 * 16), b64Pad, b64Pad]
  | [a, b] =>
    [b64Digit (a.toNat / 4), b64Digit (a.toNat % 4 * 16 + b.toNat / 16), b64Digit (b.toNat % 16 * 4), b64Pad]
  | a :: b :: c :: rest =>
    b64Digit (a.toNat / 4) :: b64Digit (a.toNat % 4 * 16 + b.toNat / 16) ::
      b64Digit (b.toNat % 16 * 4 + c.toNat / 64) :: b64Digit (c.toNat % 64) :: b64encode rest

/-- `binascii.a2b_base64` from a state: the position `quad` in the group of four, the bits `left`
over from the last digit, and the number `pads` of padding bytes just seen. -/
def a2bBase64 : (quad left pads : Nat) → Bytes → Option Bytes
  | quad, _, _, [] => if quad = 0 then some [] else none
  | quad, left, pads, x :: rest =>
    if x = b64Pad then
      if quad ≥ 2 then
        -- a complete padding ends the input, whatever follows it
        if quad + (pads + 1) ≥ 4 then some [] else a2bBase64 quad left (pads + 1) rest
      else a2bBase64 quad left pads rest
    else
      match b64Val x with
      | none => a2bBase64 quad left pads rest
      | some v =>
        match quad with
        | 0 => a2bBase64 1 v 0 rest
        | 1 => (a2bBase64 2 (v % 16) 0 rest).map (UInt8.ofNat (left * 4 + v / 16) :: ·)
        | 2 => (a2bBase64 3 (v % 4) 0 rest).map (UInt8.ofNat (left * 16 + v / 4) :: ·)
        | _ => (a2bBase64 0 0 0 rest).map (UInt8.ofNat (left * 64 + v) :: ·)

/-- `base64.b64decode(s)` on a `str`, where `none` is `ValueError` (text that is not ASCII) or
`binascii.Error`. -/
def b64decode (s : Str) : Option Bytes := (encodeAscii s).bind (a2bBase64 0 0 0)

theorem b64Val_b64Digit : ∀ n < 64, b64Val (b64Digit n) = some n := by decide +kernel

theorem b64Digit_ne_pad (n : Nat) (h : n < 64) : b64Digit n ≠ b64Pad := by
  intro hpad
  have hval := b64Val_b64Digit n h
  rw [hpad, show b64Val b64Pad = none by decide] at hval
  cases hval

theorem b64Digit_mem (n : Nat) (h : n < 64) : b64Digit n ∈ b64Pad :: b64Alphabet := by
  have hlen : b64Alphabet.length = 64 := by decide
  have hlt : n < b64Alphabet.length := by omega
  have hget : b64Digit n = b64Alphabet[n] := by
    rw [b64Digit, List.getD_eq_getElem?_getD, List.getElem?_eq_getElem hlt]
    rfl
  rw [hget]
  exact List.mem_cons_of_mem _ (List.getElem_mem hlt)

section Steps
variable {v : Nat} (hv : v < 64) (left pads : Nat) (rest : Bytes)
include hv

theorem a2bBase64_zero : a2bBase64 0 left pads (b64Digit v :: rest) = a2bBase64 1 v 0 rest := by
  simp [a2bBase64, b64Digit_ne_pad v hv, b64Val_b64Digit v hv]

theorem a2bBase64_one : a2bBase64 1 left pads (b64Digit v :: rest)
    = (a2bBase64 2 (v % 16) 0 rest).map (UInt8.ofNat (left * 4 + v / 16) :: ·) := by
  simp [a2bBase64, b64Digit_ne_pad v hv, b64Val_b64Digit v hv]

theorem a2bBase64_two : a2bBase64 2 left pads (b64Digit v :: rest)
    = (a2bBase64 3 (v % 4) 0 rest).map (UInt8.ofNat (left * 16 + v / 4) :: ·) := by
  simp [a2bBase64, b64Digit_ne_pad v hv, b64Val_b64Digit v hv]

theorem a2bBase64_three : a2bBase64 3 left pads (b64Digit v :: rest)
    = (a2bBase64 0 0 0 rest).map (UInt8.ofNat (left * 64 + v) :: ·) := by
  simp [a2bBase64, b64Digit_ne_pad v hv, b64Val_b64Digit v hv]

end Steps

/-- Decoding undoes encoding, group by group. -/
theorem a2bBase64_b64encode (b : Bytes) : a2bBase64 0 0 0 (b64encode b) = some b := by
  induction b using b64encode.induct with
  | case1 => rfl
  | case2 a =>
    have ha := a.toNat_lt
    rw [b64encode, a2bBase64_zero (by omega), a2bBase64_one (by omega)]
    have hend : a2bBase64 2 (a.toNat % 4 * 16 % 16) 0 [b64Pad, b64Pad] = some [] := by simp [a2bBase64]
    rw [hend, Option.map_some, ofNat_eq_of_toNat (x := a) (by omega)]
  | case3 a b =>
    have ha := a.toNat_lt
    have hb := b.toNat_lt
    rw [b64encode, a2bBase64_zero (by omega), a2bBase64_one (by omega), a2bBase64_two (by omega)]
    have hend : a2bBase64 3 (b.toNat % 16 * 4 % 4) 0 [b64Pad] = some [] := by simp [a2bBase64]
    rw [hend, Option.map_some, Option.map_some, ofNat_eq_of_toNat (x := a) (by omega),
      ofNat_eq_of_toNat (x := b) (by omega)]
  | case4 a b c rest ih =>
    have ha := a.toNat_lt
    have hb := b.toNat_lt
    have hc := c.toNat_lt
    rw [b64encode, a2bBase64_zero (by omega), a2bBase64_one (by omega), a2bBase64_two (by omega),
      a2bBase64_three (by omega), ih]
    simp only [Option.map_some]
    rw [ofNat_eq_of_toNat (x := a) (by omega), ofNat_eq_of_toNat (x := b) (by omega),
      ofNat_eq_of_toNat (x := c) (by omega)]

/-- Every byte of an encoding is a base64 digit or padding. -/
theorem mem_b64encode {b : Bytes} {x : UInt8} (h : x ∈ b64encode b) : x ∈ b64Pad :: b64Alphabet := by
  induction b using b64encode.induct with
  | case1 => simp [b64encode] at h
  | case2 a =>
    have ha := a.toNat_lt
    simp only [b64encode, List.mem_cons, List.not_mem_nil, or_false] at h
    rcases h with rfl | rfl | rfl | rfl
    · exact b64Digit_mem _ (by omega)
    · exact b64Digit_mem _ (by omega)
    · exact List.mem_cons_self
    · exact List.mem_cons_self
  | case3 a b =>
    have ha := a.toNat_lt
    have hb := b.toNat_lt
    simp only [b64encode, List.mem_cons, List.not_mem_nil, or_false] at h
    rcases h with rfl | rfl | rfl | rfl
    · exact b64Digit_mem _ (by omega)
    · exact b64Digit_mem _ (by omega)
    · exact b64Digit_mem _ (by omega)
    · exact List.mem_cons_self
  | case4 a b c rest ih =>
    have ha := a.toNat_lt
    have hb := b.toNat_lt
    have hc := c.toNat_lt
    simp only [b64encode, List.mem_cons] at h
    rcases h with rfl | rfl | rfl | rfl | h
    · exact b64Digit_mem _ (by omega)
    · exact b64Digit_mem _ (by omega)
    · exact b64Digit_mem _ (by omega)
    · exact b64Digit_mem _ (by omega)
    · exact ih h

/-- `base64.b64encode(b).decode("ascii")` -/
def b64Text (b : Bytes) : Str := decodeAscii (b64encode b)

theorem b64decode_b64Text (b : Bytes) : b64decode (b64Text b) = some b := by
  have hascii : ∀ x ∈ b64encode b, x.toNat < 0x80 := by
    have hall : ∀ x ∈ b64Pad :: b64Alphabet, x.toNat < 0x80 := by decide +kernel
    exact fun x hx => hall x (mem_b64encode hx)
  rw [b64decode, b64Text, encodeAscii_decodeAscii hascii, Option.bind_some, a2bBase64_b64encode]

/-- The separator of the token format is not a base64 character. -/
theorem dot_notMem_b64Text (b : Bytes) : chr '.' ∉ b64Text b := by
  have hall : ∀ x ∈ b64Pad :: b64Alphabet, codePoint x.toNat ≠ chr '.' := by decide +kernel
  simp only [b64Text, decodeAscii, List.mem_map, not_exists, not_and]
  exact fun x hx => hall x (mem_b64encode hx)

end Wire
