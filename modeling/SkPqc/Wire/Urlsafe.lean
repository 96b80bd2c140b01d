import Mathlib.Data.List.DropRight
import SkPqc.Wire.Radix

/-!
# Base64url

`base64.urlsafe_b64encode` and `base64.urlsafe_b64decode`, which exchange two digits of the alphabet and leave
the rest to the base64 functions, and the texts of an encoding without its padding.

The decoder is lenient, so many texts decode to the same bytes. How many bytes depends on the number of digits
it reads (`urlsafeB64decode_length_iff`); the one text among them that an encoding makes is described by its
characters (`exists_urlsafeText_iff`).
-/

namespace Wire

/-! ### The two alphabets -/

/-- `bytes.translate` from `+/` to `-_`. -/
def toUrlsafe (x : UInt8) : UInt8 := if x = 0x2B then 0x2D else if x = 0x2F then 0x5F else x

/-- `bytes.translate` from `-_` to `+/`. -/
def ofUrlsafe (x : UInt8) : UInt8 := if x = 0x2D then 0x2B else if x = 0x5F then 0x2F else x

/-- `base64.urlsafe_b64encode(b)` -/
def urlsafeB64encode (b : Bytes) : Bytes := (b64encode b).map toUrlsafe

/-- `base64.urlsafe_b64decode(s)` on a `str`, where `none` is `ValueError` (text that is not ASCII) or
`binascii.Error`. -/
def urlsafeB64decode (s : Str) : Option Bytes := (encodeAscii s).bind fun b => a2bBase64 0 0 0 (b.map ofUrlsafe)

/-- `base64.urlsafe_b64encode(b).rstrip(b"=").decode("ascii")` -/
def urlsafeText (b : Bytes) : Str := decodeAscii ((urlsafeB64encode b).rdropWhile (· = b64Pad))

/-- The base64url digits, in the order of their values. -/
def urlsafeDigits : Str := str "ABCDEFGHIJKLMNOPQRSTUVWXYZabcdefghijklmnopqrstuvwxyz0123456789-_"

/-- What the decoder takes for a digit: one of either alphabet. -/
def b64Digits : Str := urlsafeDigits ++ str "+/"

/-! ### How many digits are read -/

/-- The number of digits that the decoder reads: those before the first complete padding (two `=` after two digits
of a group, one after three), else all of them, in whole groups. Other characters are skipped. -/
def digitsRead : (digits pads : Nat) → Str → Option Nat
  | digits, _, [] => if digits % 4 = 0 then some digits else none
  | digits, pads, c :: rest =>
    if c = chr '=' then
      if digits % 4 ≥ 2 then
        if digits % 4 + (pads + 1) ≥ 4 then some digits else digitsRead digits (pads + 1) rest
      else digitsRead digits pads rest
    else if c ∈ b64Digits then digitsRead (digits + 1) 0 rest
    else digitsRead digits pads rest

/-- The byte that a character of a base64url text stands for in the base64 text. -/
def b64Byte (c : CodePoint) : UInt8 := ofUrlsafe (UInt8.ofNat c.val)

theorem b64Byte_eq_pad {c : CodePoint} (h : isAscii c = true) : b64Byte c = b64Pad ↔ c = chr '=' := by
  have hall : ∀ n < 0x80, b64Byte (codePoint n) = b64Pad ↔ codePoint n = chr '=' := by decide
  have hc := hall c.val (of_decide_eq_true h)
  rwa [codePoint_val] at hc

theorem b64Val_b64Byte {c : CodePoint} (h : isAscii c = true) : (b64Val (b64Byte c)).isSome = true ↔ c ∈ b64Digits := by
  have hall : ∀ n < 0x80, (b64Val (b64Byte (codePoint n))).isSome = true ↔ codePoint n ∈ b64Digits := by decide +kernel
  have hc := hall c.val (of_decide_eq_true h)
  rwa [codePoint_val] at hc

/-- A digit moves the decoder one place on, and every place but the first completes a byte. -/
theorem length_a2bBase64_digit {x : UInt8} {v : Nat} (hpad : x ≠ b64Pad) (hv : b64Val x = some v)
    (digits left pads : Nat) (rest : Bytes) :
    ∃ left', (a2bBase64 (digits % 4) left pads (x :: rest)).map (fun b => b.length + 3 * digits / 4)
      = (a2bBase64 ((digits + 1) % 4) left' 0 rest).map fun b => b.length + 3 * (digits + 1) / 4 := by
  have hquad : digits % 4 = 0 ∨ digits % 4 = 1 ∨ digits % 4 = 2 ∨ digits % 4 = 3 := by omega
  rcases hquad with h | h | h | h
  · have hnext : (digits + 1) % 4 = 1 := by omega
    have hbytes : 3 * digits / 4 = 3 * (digits + 1) / 4 := by omega
    refine ⟨v, ?_⟩
    rw [h, hnext, hbytes, a2bBase64, if_neg hpad, hv]
    rfl
  · have hnext : (digits + 1) % 4 = 2 := by omega
    have hbytes : 1 + 3 * digits / 4 = 3 * (digits + 1) / 4 := by omega
    refine ⟨v % 16, ?_⟩
    rw [h, hnext, a2bBase64, if_neg hpad, hv, ← hbytes]
    simp only [Option.map_map, Function.comp_def, List.length_cons, add_assoc]
  · have hnext : (digits + 1) % 4 = 3 := by omega
    have hbytes : 1 + 3 * digits / 4 = 3 * (digits + 1) / 4 := by omega
    refine ⟨v % 4, ?_⟩
    rw [h, hnext, a2bBase64, if_neg hpad, hv, ← hbytes]
    simp only [Option.map_map, Function.comp_def, List.length_cons, add_assoc]
  · have hnext : (digits + 1) % 4 = 0 := by omega
    have hbytes : 1 + 3 * digits / 4 = 3 * (digits + 1) / 4 := by omega
    refine ⟨0, ?_⟩
    rw [h, hnext, a2bBase64, if_neg hpad, hv, ← hbytes]
    simp only [Option.map_map, Function.comp_def, List.length_cons, add_assoc]

/-- From any state, the bytes decoded are those that the digits read make up. -/
theorem length_a2bBase64 {s : Str} (hs : s.all isAscii = true) (digits left pads : Nat) :
    (a2bBase64 (digits % 4) left pads (s.map b64Byte)).map (fun b => b.length + 3 * digits / 4)
      = (digitsRead digits pads s).map fun e => 3 * e / 4 := by
  induction s generalizing digits left pads with
  | nil =>
    by_cases hd : digits % 4 = 0
    · simp [a2bBase64, digitsRead, hd]
    · simp [a2bBase64, digitsRead, hd]
  | cons c s ih =>
    rw [List.all_cons, Bool.and_eq_true] at hs
    obtain ⟨hc, hs⟩ := hs
    have ih := fun digits left pads => ih hs digits left pads
    rw [List.map_cons, digitsRead]
    by_cases hpad : c = chr '='
    · rw [a2bBase64, if_pos ((b64Byte_eq_pad hc).mpr hpad), if_pos hpad]
      by_cases hquad : digits % 4 ≥ 2
      · rw [if_pos hquad, if_pos hquad]
        by_cases hfull : digits % 4 + (pads + 1) ≥ 4
        · rw [if_pos hfull, if_pos hfull]
          simp
        · rw [if_neg hfull, if_neg hfull]
          exact ih _ _ _
      · rw [if_neg hquad, if_neg hquad]
        exact ih _ _ _
    · have hbyte : b64Byte c ≠ b64Pad := fun h => hpad ((b64Byte_eq_pad hc).mp h)
      rw [if_neg hpad]
      by_cases hdigit : c ∈ b64Digits
      · obtain ⟨v, hv⟩ := Option.isSome_iff_exists.mp ((b64Val_b64Byte hc).mpr hdigit)
        obtain ⟨left', hstep⟩ := length_a2bBase64_digit hbyte hv digits left pads (s.map b64Byte)
        rw [if_pos hdigit, hstep]
        exact ih _ _ _
      · have hnone : b64Val (b64Byte c) = none := by
          rw [← Option.not_isSome_iff_eq_none, b64Val_b64Byte hc]
          exact hdigit
        rw [if_neg hdigit, a2bBase64, if_neg hbyte, hnone]
        exact ih _ _ _

theorem urlsafeB64decode_eq (s : Str) :
    urlsafeB64decode s = if s.all isAscii = true then a2bBase64 0 0 0 (s.map b64Byte) else none := by
  rw [urlsafeB64decode, encodeAscii]
  by_cases hs : s.all isAscii = true
  · rw [if_pos hs, if_pos hs, Option.bind_some, List.map_map]
    rfl
  · rw [if_neg hs, if_neg hs, Option.bind_none]

/-- A text decodes to `3n + 1` bytes exactly when it is ASCII and the decoder reads `4n + 2` digits. -/
theorem urlsafeB64decode_length_iff (s : Str) (n : Nat) :
    (∃ b, urlsafeB64decode s = some b ∧ b.length = 3 * n + 1) ↔
      s.all isAscii = true ∧ digitsRead 0 0 s = some (4 * n + 2) := by
  rw [urlsafeB64decode_eq]
  by_cases hs : s.all isAscii = true
  · have hlen := length_a2bBase64 hs 0 0 0
    simp only [Nat.zero_mod, Nat.mul_zero, Nat.zero_div, Nat.add_zero] at hlen
    rw [if_pos hs]
    simp only [hs, true_and]
    constructor
    · rintro ⟨b, hb, hn⟩
      rw [hb, Option.map_some, hn] at hlen
      obtain ⟨e, he, heq⟩ := Option.map_eq_some_iff.mp hlen.symm
      rw [he]
      congr 1
      omega
    · intro he
      rw [he, Option.map_some] at hlen
      obtain ⟨b, hb, heq⟩ := Option.map_eq_some_iff.mp hlen
      refine ⟨b, hb, ?_⟩
      omega
  · simp [hs]

/-! ### The text of an encoding -/

/-- The base64url digit of a value. -/
def urlsafeChar (v : Nat) : CodePoint := codePoint (toUrlsafe (b64Digit v)).toNat

/-- Values of digits that an encoding of `3n + 1` bytes ends with: the last one has no bits to spare. -/
structure IsTail (vs : List Nat) (n : Nat) : Prop where
  length_eq : vs.length = 4 * n + 2
  lt : ∀ v ∈ vs, v < 64
  last : ∀ v ∈ vs.getLast?, v % 16 = 0

theorem IsTail.cons {a b c d : Nat} {vs : List Nat} {n : Nat} (h : IsTail vs n) (ha : a < 64) (hb : b < 64)
    (hc : c < 64) (hd : d < 64) : IsTail (a :: b :: c :: d :: vs) (n + 1) := by
  obtain ⟨hlen, hlt, hlast⟩ := h
  refine ⟨?_, ?_, ?_⟩
  · simp only [List.length_cons, hlen]
    omega
  · simp only [List.mem_cons, forall_eq_or_imp]
    exact ⟨ha, hb, hc, hd, hlt⟩
  · cases vs with
    | nil => simp at hlen
    | cons v vs => simpa only [List.getLast?_cons_cons] using hlast

theorem IsTail.exists_cons {vs : List Nat} {n : Nat} (h : IsTail vs (n + 1)) :
    ∃ a b c d vs', vs = a :: b :: c :: d :: vs' ∧ IsTail vs' n ∧ a < 64 ∧ b < 64 ∧ c < 64 ∧ d < 64 := by
  obtain ⟨hlen, hlt, hlast⟩ := h
  rcases vs with _ | ⟨a, _ | ⟨b, _ | ⟨c, _ | ⟨d, vs⟩⟩⟩⟩
  · cases hlen
  · simp only [List.length_cons, List.length_nil] at hlen
    omega
  · simp only [List.length_cons, List.length_nil] at hlen
    omega
  · simp only [List.length_cons, List.length_nil] at hlen
    omega
  · simp only [List.mem_cons, forall_eq_or_imp] at hlt
    obtain ⟨ha, hb, hc, hd, hlt⟩ := hlt
    simp only [List.length_cons] at hlen
    refine ⟨a, b, c, d, vs, rfl, ⟨by omega, hlt, ?_⟩, ha, hb, hc, hd⟩
    cases vs with
    | nil =>
      rw [List.length_nil] at hlen
      omega
    | cons v vs => simpa only [List.getLast?_cons_cons] using hlast

theorem toNat_ofNat_byte {n : Nat} (h : n < 256) : (UInt8.ofNat n).toNat = n := UInt8.toNat_ofNat_of_lt' h

/-- The digits of `3n + 1` bytes. -/
theorem exists_digits_of_b64encode {n : Nat} {b : Bytes} (hb : b.length = 3 * n + 1) :
    ∃ vs, IsTail vs n ∧ b64encode b = vs.map b64Digit ++ [b64Pad, b64Pad] := by
  induction n generalizing b with
  | zero =>
    obtain ⟨x, rfl⟩ := List.length_eq_one_iff.mp hb
    have hx := x.toNat_lt
    refine ⟨[x.toNat / 4, x.toNat % 4 * 16], ⟨rfl, ?_, ?_⟩, rfl⟩
    · simp only [List.mem_cons, List.not_mem_nil, or_false, forall_eq_or_imp, forall_eq]
      omega
    · simp
  | succ n ih =>
    rcases b with _ | ⟨x, _ | ⟨y, _ | ⟨z, b⟩⟩⟩
    · cases hb
    · simp only [List.length_cons, List.length_nil] at hb
      omega
    · simp only [List.length_cons, List.length_nil] at hb
      omega
    · obtain ⟨vs, htail, hvs⟩ := @ih b (by simp only [List.length_cons] at hb; omega)
      have hx := x.toNat_lt
      have hy := y.toNat_lt
      have hz := z.toNat_lt
      refine ⟨_, htail.cons (a := x.toNat / 4) (b := x.toNat % 4 * 16 + y.toNat / 16)
        (c := y.toNat % 16 * 4 + z.toNat / 64) (d := z.toNat % 64) ?_ ?_ ?_ ?_, ?_⟩
      · omega
      · omega
      · omega
      · omega
      · rw [b64encode, hvs]
        rfl

/-- Any such digits are the digits of some bytes. -/
theorem exists_b64encode_of_digits {n : Nat} {vs : List Nat} (h : IsTail vs n) :
    ∃ b : Bytes, b.length = 3 * n + 1 ∧ b64encode b = vs.map b64Digit ++ [b64Pad, b64Pad] := by
  induction n generalizing vs with
  | zero =>
    obtain ⟨hlen, hlt, hlast⟩ := h
    obtain ⟨u, v, rfl⟩ := List.length_eq_two.mp hlen
    have hu := hlt u (by simp)
    have hv := hlt v (by simp)
    have hspare : v % 16 = 0 := hlast v rfl
    have hfirst : (u * 4 + v / 16) / 4 = u := by omega
    have hsecond : (u * 4 + v / 16) % 4 * 16 = v := by omega
    refine ⟨[UInt8.ofNat (u * 4 + v / 16)], rfl, ?_⟩
    rw [b64encode, toNat_ofNat_byte (by omega), hfirst, hsecond]
    rfl
  | succ n ih =>
    obtain ⟨p, q, r, s, vs', rfl, htail, hp, hq, hr, hs⟩ := h.exists_cons
    obtain ⟨rest, hlen, hrest⟩ := ih htail
    have hfirst : (p * 4 + q / 16) / 4 = p := by omega
    have hsecond : (p * 4 + q / 16) % 4 * 16 + (q % 16 * 16 + r / 4) / 16 = q := by omega
    have hthird : (q % 16 * 16 + r / 4) % 16 * 4 + (r % 4 * 64 + s) / 64 = r := by omega
    have hfourth : (r % 4 * 64 + s) % 64 = s := by omega
    refine ⟨UInt8.ofNat (p * 4 + q / 16) :: UInt8.ofNat (q % 16 * 16 + r / 4) :: UInt8.ofNat (r % 4 * 64 + s) :: rest,
      ?_, ?_⟩
    · simp only [List.length_cons, hlen]
      omega
    · rw [b64encode, toNat_ofNat_byte (by omega), toNat_ofNat_byte (by omega), toNat_ofNat_byte (by omega), hfirst,
        hsecond, hthird, hfourth, hrest]
      rfl

theorem mem_urlsafeDigits {c : CodePoint} : c ∈ urlsafeDigits ↔ ∃ v < 64, urlsafeChar v = c := by
  have hdigits : urlsafeDigits = (List.range 64).map urlsafeChar := by decide
  rw [hdigits, List.mem_map]
  simp only [List.mem_range]

/-- The digits without spare bits. -/
theorem urlsafeChar_mem_last {v : Nat} (h : v < 64) : urlsafeChar v ∈ str "AQgw" ↔ v % 16 = 0 := by
  have hall : ∀ v < 64, urlsafeChar v ∈ str "AQgw" ↔ v % 16 = 0 := by decide +kernel
  exact hall v h

/-- Without the padding the text of an encoding is its digits. -/
theorem urlsafeText_eq {b : Bytes} {vs : List Nat} {n : Nat} (htail : IsTail vs n)
    (h : b64encode b = vs.map b64Digit ++ [b64Pad, b64Pad]) : urlsafeText b = vs.map urlsafeChar := by
  have hpad : toUrlsafe b64Pad = b64Pad := by decide
  have hnot : ∀ v < 64, toUrlsafe (b64Digit v) ≠ b64Pad := by decide +kernel
  have hdigits : (vs.map fun v => toUrlsafe (b64Digit v)).rdropWhile (· = b64Pad)
      = vs.map fun v => toUrlsafe (b64Digit v) := by
    rw [List.rdropWhile_eq_self_iff]
    intro hne
    rw [List.getLast_map, decide_eq_true_eq]
    exact hnot _ (htail.lt _ (List.getLast_mem _))
  have hencoded : urlsafeB64encode b = (vs.map fun v => toUrlsafe (b64Digit v)) ++ [b64Pad] ++ [b64Pad] := by
    rw [urlsafeB64encode, h, List.map_append, List.map_map, List.append_assoc]
    simp only [List.map_cons, List.map_nil, hpad]
    rfl
  rw [urlsafeText, hencoded, List.rdropWhile_concat_pos _ _ _ (by simp), List.rdropWhile_concat_pos _ _ _ (by simp),
    hdigits, decodeAscii, List.map_map]
  rfl

/-- The texts of encodings of `3n + 1` bytes: base64url digits of that number, the last one without spare bits. -/
theorem exists_urlsafeText_iff (s : Str) (n : Nat) :
    (∃ b, b.length = 3 * n + 1 ∧ urlsafeText b = s) ↔
      s.length = 4 * n + 2 ∧ (∀ c ∈ s, c ∈ urlsafeDigits) ∧ ∀ c ∈ s.getLast?, c ∈ str "AQgw" := by
  constructor
  · rintro ⟨b, hb, rfl⟩
    obtain ⟨vs, htail, hvs⟩ := exists_digits_of_b64encode hb
    rw [urlsafeText_eq htail hvs]
    refine ⟨?_, ?_, ?_⟩
    · rw [List.length_map, htail.length_eq]
    · intro c hc
      obtain ⟨v, hv, rfl⟩ := List.mem_map.mp hc
      exact mem_urlsafeDigits.mpr ⟨v, htail.lt v hv, rfl⟩
    · intro c hc
      rw [List.getLast?_map, Option.mem_def, Option.map_eq_some_iff] at hc
      obtain ⟨v, hv, rfl⟩ := hc
      exact (urlsafeChar_mem_last (htail.lt v (List.mem_of_getLast? hv))).mpr (htail.last v hv)
  · rintro ⟨hlen, hdigits, hlast⟩
    have hvalues : ∀ s : Str, (∀ c ∈ s, c ∈ urlsafeDigits) →
        ∃ vs : List Nat, (∀ v ∈ vs, v < 64) ∧ vs.map urlsafeChar = s := by
      intro s hs
      induction s with
      | nil => exact ⟨[], by simp, rfl⟩
      | cons c s ih =>
        obtain ⟨v, hv, rfl⟩ := mem_urlsafeDigits.mp (hs c List.mem_cons_self)
        obtain ⟨vs, hvs, rfl⟩ := ih fun d hd => hs d (List.mem_cons_of_mem _ hd)
        exact ⟨v :: vs, by simpa using ⟨hv, hvs⟩, rfl⟩
    obtain ⟨vs, hvs, rfl⟩ := hvalues s hdigits
    have htail : IsTail vs n := by
      refine ⟨by rwa [List.length_map] at hlen, hvs, fun v hv => ?_⟩
      refine (urlsafeChar_mem_last (hvs v (List.mem_of_getLast? hv))).mp (hlast _ ?_)
      rw [List.getLast?_map, Option.mem_def, Option.mem_def.mp hv, Option.map_some]
    obtain ⟨b, hb, hencode⟩ := exists_b64encode_of_digits htail
    exact ⟨b, hb, urlsafeText_eq htail hencode⟩

/-- The text of `3n + 1` bytes, padded again, decodes to them. -/
theorem urlsafeB64decode_urlsafeText {b : Bytes} {n : Nat} (hb : b.length = 3 * n + 1) :
    urlsafeB64decode (urlsafeText b ++ List.replicate 2 (chr '=')) = some b := by
  obtain ⟨vs, htail, hvs⟩ := exists_digits_of_b64encode hb
  have hdigit : ∀ v < 64, isAscii (urlsafeChar v) = true ∧ b64Byte (urlsafeChar v) = b64Digit v := by decide +kernel
  have hascii : (vs.map urlsafeChar ++ List.replicate 2 (chr '=')).all isAscii = true := by
    rw [List.all_append, List.all_map, Bool.and_eq_true, List.all_eq_true]
    exact ⟨fun v hv => (hdigit v (htail.lt v hv)).1, by decide⟩
  have hbytes : (vs.map urlsafeChar ++ List.replicate 2 (chr '=')).map b64Byte = b64encode b := by
    rw [hvs, List.map_append, List.map_map]
    refine congrArg₂ _ (List.map_congr_left fun v hv => (hdigit v (htail.lt v hv)).2) ?_
    decide
  rw [urlsafeText_eq htail hvs, urlsafeB64decode_eq, if_pos hascii, hbytes, a2bBase64_b64encode]

end Wire
