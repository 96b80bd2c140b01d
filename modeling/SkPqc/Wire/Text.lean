import Mathlib.Order.Fin.Basic
import Mathlib.Data.List.Lex
import Mathlib.Data.List.Sort
import SkPqc.Wire.Bytes

/-!
# Text

Python's `str` as lists of code points (lone surrogates included, as Python allows them), and the
codecs the standard library gives for it: UTF-8 with the `strict`, `replace` and `surrogatepass`
error handlers, UTF-16, UTF-32 and ASCII.

The decoder follows CPython: an ill-formed sequence is cut off at its maximal valid prefix, which
`replace` turns into one U+FFFD. Decoding the encoding of scalar values gives them back, whatever
follows (`utf8Chars_utf8`), and the strict decoder accepts nothing else (`decodeUtf8_eq_some`).
-/

namespace Wire

/-- A Python character: any Unicode code point. -/
abbrev CodePoint := Fin 0x110000

/-- A Python `str`. Lists of code points are ordered lexicographically, as Python orders strings. -/
abbrev Str := List CodePoint

def codePoint (n : Nat) : CodePoint := Fin.ofNat 0x110000 n

@[simp] theorem codePoint_val (c : CodePoint) : codePoint c.val = c := Fin.ofNat_val_eq_self c

theorem val_codePoint {n : Nat} (h : n < 0x110000) : (codePoint n).val = n := Nat.mod_eq_of_lt h

/-- The one-character literal `"c"`. -/
def chr (c : Char) : CodePoint := codePoint c.toNat

/-- The literal `"..."`. -/
def str (s : String) : Str := s.toList.map chr

def isSurrogate (c : CodePoint) : Bool := 0xD800 ≤ c.val && c.val ≤ 0xDFFF

/-- The strings over Unicode scalar values: no lone surrogate. -/
def Scalar (s : Str) : Prop := ∀ c ∈ s, isSurrogate c = false

instance (s : Str) : Decidable (Scalar s) := inferInstanceAs (Decidable (∀ c ∈ s, _))

@[simp] theorem scalar_nil : Scalar [] := by simp [Scalar]

@[simp] theorem scalar_cons {c : CodePoint} {s : Str} :
    Scalar (c :: s) ↔ isSurrogate c = false ∧ Scalar s := by
  simp [Scalar]

@[simp] theorem scalar_append {s t : Str} : Scalar (s ++ t) ↔ Scalar s ∧ Scalar t := by
  simp [Scalar, or_imp, forall_and]

/-- A literal of the source has scalar values only. -/
theorem scalar_str (s : String) : Scalar (str s) := by
  intro c hc
  obtain ⟨char, -, rfl⟩ := List.mem_map.mp hc
  have hvalid : char.toNat < 0xD800 ∨ (0xDFFF < char.toNat ∧ char.toNat < 0x110000) := char.valid
  rw [isSurrogate, chr, val_codePoint (by omega)]
  simp only [Bool.and_eq_false_iff, decide_eq_false_iff_not]
  omega

/-- `sep.split` on a one-character separator. -/
def split (sep : CodePoint) (s : Str) : List Str := s.splitOn sep

/-- Sorting by a key erases any permutation, where no two elements share a key. -/
theorem insertionSort_eq_of_perm {α κ : Type*} [LinearOrder κ] (key : α → κ) {l l' : List α} (h : l.Perm l')
    (hinj : ∀ a ∈ l, ∀ b ∈ l, key a = key b → a = b) :
    l.insertionSort (fun a b => key a ≤ key b) = l'.insertionSort (fun a b => key a ≤ key b) := by
  have htotal : Std.Total fun a b => key a ≤ key b := ⟨fun a b => le_total (key a) (key b)⟩
  have htrans : IsTrans α fun a b => key a ≤ key b := ⟨fun _ _ _ => le_trans⟩
  have hsorted : ∀ l : List α, (l.insertionSort fun a b => key a ≤ key b).Pairwise fun a b => key a ≤ key b :=
    List.pairwise_insertionSort _
  have hperm : ∀ l : List α, (l.insertionSort fun a b => key a ≤ key b).Perm l := List.perm_insertionSort _
  refine (((hperm l).trans h).trans (hperm l').symm).eq_of_pairwise ?_ (hsorted l) (hsorted l')
  intro a b ha hb hab hba
  exact hinj a ((hperm l).subset ha) b (h.symm.subset ((hperm l').subset hb)) (le_antisymm hab hba)

/-- Where what passes a test comes first, the filtered list is a segment at the front. -/
theorem exists_append_filter {α : Type*} {p : α → Bool} {l : List α}
    (h : l.Pairwise fun a b => p b = true → p a = true) :
    ∃ rest, l = l.filter p ++ rest ∧ ∀ a ∈ rest, p a = false := by
  induction l with
  | nil => exact ⟨[], rfl, by simp⟩
  | cons a l ih =>
    obtain ⟨hfirst, hrest⟩ := List.pairwise_cons.mp h
    by_cases ha : p a = true
    · obtain ⟨rest, hl, hfails⟩ := ih hrest
      refine ⟨rest, ?_, hfails⟩
      rw [List.filter_cons_of_pos ha, List.cons_append, ← hl]
    · have hnone : ∀ b ∈ a :: l, ¬p b = true := by
        intro b hb
        rcases List.mem_cons.mp hb with rfl | hb
        · exact ha
        · exact fun hpb => ha (hfirst b hb hpb)
      refine ⟨a :: l, ?_, fun b hb => Bool.eq_false_of_not_eq_true (hnone b hb)⟩
      rw [List.filter_eq_nil_iff.mpr hnone, List.nil_append]

/-- `sorted` on strings. -/
def sortStrs (l : List Str) : List Str := l.insertionSort (· ≤ ·)

theorem sortStrs_perm (l : List Str) : (sortStrs l).Perm l := List.perm_insertionSort _ l

/-- Sorting erases any permutation: the order on strings is total and antisymmetric. -/
theorem sortStrs_eq_of_perm {l l' : List Str} (h : l.Perm l') : sortStrs l = sortStrs l' :=
  insertionSort_eq_of_perm id h fun _ _ _ _ => id

/-! ### ASCII -/

def isAscii (c : CodePoint) : Bool := c.val < 0x80

/-- ASCII text holds no surrogate; this is how the literals are checked. -/
theorem scalar_of_isAscii {s : Str} (h : s.all isAscii = true) : Scalar s := by
  intro c hc
  have hlt : c.val < 0x80 := of_decide_eq_true (List.all_eq_true.mp h c hc)
  simp only [isSurrogate, Bool.and_eq_false_iff, decide_eq_false_iff_not]
  omega

/-- `s.encode("ascii")` -/
def encodeAscii (s : Str) : Option Bytes :=
  if s.all isAscii then some (s.map fun c => UInt8.ofNat c.val) else none

/-- `b.decode("ascii")` on bytes below 128. -/
def decodeAscii (b : Bytes) : Str := b.map fun x => codePoint x.toNat

theorem encodeAscii_decodeAscii {b : Bytes} (h : ∀ x ∈ b, x.toNat < 0x80) :
    encodeAscii (decodeAscii b) = some b := by
  have hval : ∀ x : UInt8, (codePoint x.toNat).val = x.toNat := fun x =>
    val_codePoint (by have := x.toNat_lt; omega)
  have hall : (decodeAscii b).all isAscii = true := by
    simp only [decodeAscii, List.all_map, List.all_eq_true, Function.comp, isAscii, decide_eq_true_eq]
    intro x hx
    rw [hval]
    exact h x hx
  rw [encodeAscii, if_pos hall, decodeAscii, List.map_map]
  congr 1
  conv_rhs => rw [← List.map_id b]
  refine List.map_congr_left fun x _ => ?_
  simp [hval]

/-! ### UTF-8 -/

/-- The UTF-8 bytes of one code point. -/
def utf8Bytes (c : CodePoint) : Bytes :=
  let n := c.val
  if n < 0x80 then [.ofNat n]
  else if n < 0x800 then [.ofNat (0xC0 + n / 64), .ofNat (0x80 + n % 64)]
  else if n < 0x10000 then
    [.ofNat (0xE0 + n / 4096), .ofNat (0x80 + n / 64 % 64), .ofNat (0x80 + n % 64)]
  else
    [.ofNat (0xF0 + n / 262144), .ofNat (0x80 + n / 4096 % 64), .ofNat (0x80 + n / 64 % 64),
      .ofNat (0x80 + n % 64)]

def utf8 (s : Str) : Bytes := s.flatMap utf8Bytes

/-- `s.encode("utf-8")`: surrogates have no UTF-8 encoding. -/
def encodeUtf8 (s : Str) : Option Bytes := if Scalar s then some (utf8 s) else none

@[simp] theorem utf8_nil : utf8 [] = [] := rfl

@[simp] theorem utf8_cons (c : CodePoint) (s : Str) : utf8 (c :: s) = utf8Bytes c ++ utf8 s := rfl

@[simp] theorem utf8_append (s t : Str) : utf8 (s ++ t) = utf8 s ++ utf8 t := by simp [utf8]

theorem encodeUtf8_of_scalar {s : Str} (h : Scalar s) : encodeUtf8 s = some (utf8 s) := if_pos h

theorem encodeUtf8_eq_some {s : Str} {b : Bytes} : encodeUtf8 s = some b ↔ Scalar s ∧ utf8 s = b := by
  by_cases h : Scalar s <;> simp [encodeUtf8, h]

def isCont (b : UInt8) : Bool := 0x80 ≤ b.toNat && b.toNat < 0xC0

/-- The least and greatest second byte after the lead byte `n` of a three- or four-byte sequence. -/
def secondRange (surrogatepass : Bool) (n : Nat) : Nat × Nat :=
  if n = 0xE0 then (0xA0, 0xBF)
  else if n = 0xED then (0x80, if surrogatepass then 0xBF else 0x9F)
  else if n = 0xF0 then (0x90, 0xBF)
  else if n = 0xF4 then (0x80, 0x8F)
  else (0x80, 0xBF)

/-- The first character of `b :: rest` (`none` where it is ill-formed) and the number of bytes it
takes; an ill-formed sequence takes its maximal valid prefix. -/
def utf8Step (surrogatepass : Bool) (b : UInt8) (rest : Bytes) : Option CodePoint × Nat :=
  let n := b.toNat
  let second := secondRange surrogatepass n
  if n < 0x80 then (some (codePoint n), 1)
  else if n < 0xC2 then (none, 1)
  else if n < 0xE0 then
    match rest with
    | c :: _ => if isCont c then (some (codePoint ((n - 0xC0) * 64 + (c.toNat - 0x80))), 2) else (none, 1)
    | [] => (none, 1)
  else if n < 0xF0 then
    match rest with
    | c :: rest =>
      if second.1 ≤ c.toNat ∧ c.toNat ≤ second.2 then
        match rest with
        | d :: _ =>
          if isCont d then
            (some (codePoint ((n - 0xE0) * 4096 + (c.toNat - 0x80) * 64 + (d.toNat - 0x80))), 3)
          else (none, 2)
        | [] => (none, 2)
      else (none, 1)
    | [] => (none, 1)
  else if n < 0xF5 then
    match rest with
    | c :: rest =>
      if second.1 ≤ c.toNat ∧ c.toNat ≤ second.2 then
        match rest with
        | d :: rest =>
          if isCont d then
            match rest with
            | e :: _ =>
              if isCont e then
                (some (codePoint ((n - 0xF0) * 262144 + (c.toNat - 0x80) * 4096 + (d.toNat - 0x80) * 64 +
                  (e.toNat - 0x80))), 4)
              else (none, 3)
            | [] => (none, 3)
          else (none, 2)
        | [] => (none, 2)
      else (none, 1)
    | [] => (none, 1)
  else (none, 1)

/-- The characters of a byte string after `skip` bytes, with `none` for each ill-formed sequence. -/
def utf8Chars (surrogatepass : Bool) : (skip : Nat) → Bytes → List (Option CodePoint)
  | _, [] => []
  | skip + 1, _ :: bs => utf8Chars surrogatepass skip bs
  | 0, b :: bs =>
    let step := utf8Step surrogatepass b bs
    step.1 :: utf8Chars surrogatepass (step.2 - 1) bs

/-- All the values of a list, or `none` when one is missing. -/
def allSome {α : Type*} : List (Option α) → Option (List α)
  | [] => some []
  | none :: _ => none
  | some a :: rest => (allSome rest).map (a :: ·)

@[simp] theorem allSome_map_some {α : Type*} (l : List α) : allSome (l.map some) = some l := by
  induction l with
  | nil => rfl
  | cons a l ih => simp [allSome, ih]

theorem eq_map_of_allSome {α : Type*} {l : List (Option α)} {xs : List α} (h : allSome l = some xs) :
    l = xs.map some := by
  induction l generalizing xs with
  | nil =>
    cases h
    rfl
  | cons o l ih =>
    cases o with
    | none => cases h
    | some a =>
      obtain ⟨rest, hrest, rfl⟩ := Option.map_eq_some_iff.mp h
      rw [List.map_cons, ih hrest]

/-- `b.decode("utf-8")` -/
def decodeUtf8 (b : Bytes) : Option Str := allSome (utf8Chars false 0 b)

/-- `b.decode("utf-8", "surrogatepass")` -/
def decodeUtf8Surrogatepass (b : Bytes) : Option Str := allSome (utf8Chars true 0 b)

/-- `b.decode("utf-8", "replace")` -/
def decodeUtf8Replace (b : Bytes) : Str := (utf8Chars false 0 b).map fun c => c.getD (codePoint 0xFFFD)

theorem utf8Chars_skip (surrogatepass : Bool) (bs rest : Bytes) :
    utf8Chars surrogatepass bs.length (bs ++ rest) = utf8Chars surrogatepass 0 rest := by
  induction bs with
  | nil => rfl
  | cons b bs ih => simpa [utf8Chars] using ih

/-- One decoding step reads exactly the bytes of the code point at the front. -/
theorem utf8Step_utf8Bytes (surrogatepass : Bool) (c : CodePoint) (hc : isSurrogate c = false) (rest : Bytes) :
    ∃ b bs, utf8Bytes c = b :: bs ∧ utf8Step surrogatepass b (bs ++ rest) = (some c, bs.length + 1) := by
  obtain ⟨n, hn⟩ := c
  have hback : ∀ m, m = n → codePoint m = (⟨n, hn⟩ : CodePoint) := by
    rintro m rfl
    exact Fin.ext (val_codePoint hn)
  have hsur : ¬(0xD800 ≤ n ∧ n ≤ 0xDFFF) := by simpa [isSurrogate] using hc
  by_cases h1 : n < 0x80
  · refine ⟨_, _, by simp only [utf8Bytes, if_pos h1]; rfl, ?_⟩
    have hb : (UInt8.ofNat n).toNat = n := by simp; omega
    simp only [utf8Step, hb, if_pos h1, List.length_nil, Nat.zero_add, hback n rfl]
  by_cases h2 : n < 0x800
  · refine ⟨_, _, by simp only [utf8Bytes, if_neg h1, if_pos h2]; rfl, ?_⟩
    have hb : (UInt8.ofNat (0xC0 + n / 64)).toNat = 0xC0 + n / 64 := by simp; omega
    have hb' : (UInt8.ofNat (0x80 + n % 64)).toNat = 0x80 + n % 64 := by simp; omega
    have hcont : isCont (UInt8.ofNat (0x80 + n % 64)) = true := by simp only [isCont, hb']; simp; omega
    simp only [utf8Step, hb, List.cons_append, hcont, hb', if_true, List.length_cons, List.length_nil]
    rw [if_neg (by omega), if_neg (by omega), if_pos (by omega), hback _ (by omega)]
  by_cases h3 : n < 0x10000
  · refine ⟨_, _, by simp only [utf8Bytes, if_neg h1, if_neg h2, if_pos h3]; rfl, ?_⟩
    have hb : (UInt8.ofNat (0xE0 + n / 4096)).toNat = 0xE0 + n / 4096 := by simp; omega
    have hb' : (UInt8.ofNat (0x80 + n / 64 % 64)).toNat = 0x80 + n / 64 % 64 := by simp; omega
    have hb'' : (UInt8.ofNat (0x80 + n % 64)).toNat = 0x80 + n % 64 := by simp; omega
    have hcont : isCont (UInt8.ofNat (0x80 + n % 64)) = true := by simp only [isCont, hb'']; simp; omega
    have hrange : (secondRange surrogatepass (0xE0 + n / 4096)).1 ≤ 0x80 + n / 64 % 64 ∧
        0x80 + n / 64 % 64 ≤ (secondRange surrogatepass (0xE0 + n / 4096)).2 := by
      unfold secondRange
      split_ifs <;> (simp only; omega)
    simp only [utf8Step, hb, List.cons_append, hb', if_pos hrange, hcont, hb'', if_true, List.length_cons,
      List.length_nil]
    rw [if_neg (by omega), if_neg (by omega), if_neg (by omega), if_pos (by omega), hback _ (by omega)]
  · refine ⟨_, _, by simp only [utf8Bytes, if_neg h1, if_neg h2, if_neg h3]; rfl, ?_⟩
    have hb : (UInt8.ofNat (0xF0 + n / 262144)).toNat = 0xF0 + n / 262144 := by simp; omega
    have hb' : (UInt8.ofNat (0x80 + n / 4096 % 64)).toNat = 0x80 + n / 4096 % 64 := by simp; omega
    have hb'' : (UInt8.ofNat (0x80 + n / 64 % 64)).toNat = 0x80 + n / 64 % 64 := by simp; omega
    have hb''' : (UInt8.ofNat (0x80 + n % 64)).toNat = 0x80 + n % 64 := by simp; omega
    have hcont : isCont (UInt8.ofNat (0x80 + n / 64 % 64)) = true := by simp only [isCont, hb'']; simp; omega
    have hcont' : isCont (UInt8.ofNat (0x80 + n % 64)) = true := by simp only [isCont, hb''']; simp; omega
    have hrange : (secondRange surrogatepass (0xF0 + n / 262144)).1 ≤ 0x80 + n / 4096 % 64 ∧
        0x80 + n / 4096 % 64 ≤ (secondRange surrogatepass (0xF0 + n / 262144)).2 := by
      unfold secondRange
      split_ifs <;> (simp only; omega)
    simp only [utf8Step, hb, List.cons_append, hb', if_pos hrange, hcont, hcont', hb'', hb''', if_true,
      List.length_cons, List.length_nil]
    rw [if_neg (by omega), if_neg (by omega), if_neg (by omega), if_neg (by omega), if_pos (by omega),
      hback _ (by omega)]

/-- Decoding the encoding of scalar values gives them back, whatever follows. -/
theorem utf8Chars_utf8 (surrogatepass : Bool) {s : Str} (hs : Scalar s) (rest : Bytes) :
    utf8Chars surrogatepass 0 (utf8 s ++ rest) = s.map some ++ utf8Chars surrogatepass 0 rest := by
  induction s with
  | nil => rfl
  | cons c s ih =>
    obtain ⟨hc, hs⟩ := scalar_cons.mp hs
    obtain ⟨b, bs, hbytes, hstep⟩ := utf8Step_utf8Bytes surrogatepass c hc (utf8 s ++ rest)
    rw [utf8_cons, hbytes, List.append_assoc, List.cons_append, utf8Chars, hstep]
    simp only [Nat.add_sub_cancel, utf8Chars_skip, ih hs, List.map_cons, List.cons_append]

theorem decodeUtf8_utf8 {s : Str} (hs : Scalar s) : decodeUtf8 (utf8 s) = some s := by
  have h := utf8Chars_utf8 false hs []
  simp only [List.append_nil, utf8Chars] at h
  rw [decodeUtf8, h, allSome_map_some]

theorem decodeUtf8Surrogatepass_utf8 {s : Str} (hs : Scalar s) :
    decodeUtf8Surrogatepass (utf8 s) = some s := by
  have h := utf8Chars_utf8 true hs []
  simp only [List.append_nil, utf8Chars] at h
  rw [decodeUtf8Surrogatepass, h, allSome_map_some]

theorem decodeUtf8Replace_utf8 {s : Str} (hs : Scalar s) : decodeUtf8Replace (utf8 s) = s := by
  have h := utf8Chars_utf8 false hs []
  simp only [List.append_nil, utf8Chars] at h
  rw [decodeUtf8Replace, h, List.map_map]
  simp

theorem ofNat_eq_of_toNat {x : UInt8} {n : Nat} (h : n = x.toNat) : UInt8.ofNat n = x := by
  rw [h, UInt8.ofNat_toNat]

theorem isCont_iff {b : UInt8} : isCont b = true ↔ 0x80 ≤ b.toNat ∧ b.toNat < 0xC0 := by
  simp [isCont]

theorem isSurrogate_codePoint {n : Nat} (hn : n < 0x110000) (h : ¬(0xD800 ≤ n ∧ n ≤ 0xDFFF)) :
    isSurrogate (codePoint n) = false := by
  simp only [isSurrogate, val_codePoint hn, Bool.and_eq_false_iff, decide_eq_false_iff_not]
  omega

theorem secondRange_bounds {n c : Nat} (h : (secondRange false n).1 ≤ c ∧ c ≤ (secondRange false n).2) :
    (0x80 ≤ c ∧ c < 0xC0) ∧ (n = 0xE0 → 0xA0 ≤ c) ∧ (n = 0xED → c ≤ 0x9F) ∧ (n = 0xF0 → 0x90 ≤ c) ∧
      (n = 0xF4 → c ≤ 0x8F) := by
  simp only [secondRange, Bool.false_eq_true, if_false] at h
  split_ifs at h <;> dsimp only at h <;> refine ⟨by omega, ?_, ?_, ?_, ?_⟩ <;> intro hn <;> omega

/-! What the decoder takes for a sequence of two, three or four bytes is the encoding of a scalar value. -/

theorem utf8Bytes_two {b d : UInt8} (hlow : ¬b.toNat < 0xC2) (hhigh : b.toNat < 0xE0) (hd : isCont d = true) {v : Nat}
    (hv : v = (b.toNat - 0xC0) * 64 + (d.toNat - 0x80)) :
    isSurrogate (codePoint v) = false ∧ utf8Bytes (codePoint v) = [b, d] := by
  rw [isCont_iff] at hd
  have hmax : v < 0x110000 := by omega
  refine ⟨isSurrogate_codePoint hmax (by omega), ?_⟩
  simp only [utf8Bytes, val_codePoint hmax]
  rw [if_neg (by omega), if_pos (by omega), ofNat_eq_of_toNat (x := b) (by omega),
    ofNat_eq_of_toNat (x := d) (by omega)]

theorem utf8Bytes_three {b d e : UInt8} (hlow : ¬b.toNat < 0xE0) (hhigh : b.toNat < 0xF0)
    (hd : (secondRange false b.toNat).1 ≤ d.toNat ∧ d.toNat ≤ (secondRange false b.toNat).2) (he : isCont e = true)
    {v : Nat} (hv : v = (b.toNat - 0xE0) * 4096 + (d.toNat - 0x80) * 64 + (e.toNat - 0x80)) :
    isSurrogate (codePoint v) = false ∧ utf8Bytes (codePoint v) = [b, d, e] := by
  have hrange := secondRange_bounds hd
  rw [isCont_iff] at he
  have hmax : v < 0x110000 := by omega
  refine ⟨isSurrogate_codePoint hmax (by omega), ?_⟩
  simp only [utf8Bytes, val_codePoint hmax]
  rw [if_neg (by omega), if_neg (by omega), if_pos (by omega), ofNat_eq_of_toNat (x := b) (by omega),
    ofNat_eq_of_toNat (x := d) (by omega), ofNat_eq_of_toNat (x := e) (by omega)]

theorem utf8Bytes_four {b d e f : UInt8} (hlow : ¬b.toNat < 0xF0) (hhigh : b.toNat < 0xF5)
    (hd : (secondRange false b.toNat).1 ≤ d.toNat ∧ d.toNat ≤ (secondRange false b.toNat).2) (he : isCont e = true)
    (hf : isCont f = true) {v : Nat} (hv : v = (b.toNat - 0xF0) * 262144 + (d.toNat - 0x80) * 4096 +
      (e.toNat - 0x80) * 64 + (f.toNat - 0x80)) :
    isSurrogate (codePoint v) = false ∧ utf8Bytes (codePoint v) = [b, d, e, f] := by
  have hrange := secondRange_bounds hd
  rw [isCont_iff] at he hf
  have hmax : v < 0x110000 := by omega
  refine ⟨isSurrogate_codePoint hmax (by omega), ?_⟩
  simp only [utf8Bytes, val_codePoint hmax]
  rw [if_neg (by omega), if_neg (by omega), if_neg (by omega), ofNat_eq_of_toNat (x := b) (by omega),
    ofNat_eq_of_toNat (x := d) (by omega), ofNat_eq_of_toNat (x := e) (by omega),
    ofNat_eq_of_toNat (x := f) (by omega)]

/-- A decoding step that gives a character has read its bytes, and the character is no surrogate. -/
theorem exists_of_utf8Step {b : UInt8} {rest : Bytes} {c : CodePoint} {n : Nat}
    (h : utf8Step false b rest = (some c, n)) :
    isSurrogate c = false ∧ ∃ bs tail, rest = bs ++ tail ∧ utf8Bytes c = b :: bs ∧ n = bs.length + 1 := by
  simp only [utf8Step] at h
  by_cases h1 : b.toNat < 0x80
  · rw [if_pos h1] at h
    cases h
    have hmax : b.toNat < 0x110000 := by omega
    refine ⟨isSurrogate_codePoint hmax (by omega), [], rest, rfl, ?_, rfl⟩
    simp only [utf8Bytes, val_codePoint hmax, if_pos h1, UInt8.ofNat_toNat]
  by_cases h2 : b.toNat < 0xC2
  · rw [if_neg h1, if_pos h2] at h
    cases h
  by_cases h3 : b.toNat < 0xE0
  · rw [if_neg h1, if_neg h2, if_pos h3] at h
    split at h
    · rename_i d tail
      split at h
      · rename_i hd
        simp only [Prod.mk.injEq, Option.some.injEq] at h
        obtain ⟨rfl, rfl⟩ := h
        obtain ⟨hsur, hbytes⟩ := utf8Bytes_two h2 h3 hd rfl
        exact ⟨hsur, [d], tail, rfl, hbytes, rfl⟩
      · cases h
    · cases h
  by_cases h4 : b.toNat < 0xF0
  · rw [if_neg h1, if_neg h2, if_neg h3, if_pos h4] at h
    split at h
    · rename_i d rest
      split at h
      · rename_i hd
        split at h
        · rename_i e tail
          split at h
          · rename_i he
            simp only [Prod.mk.injEq, Option.some.injEq] at h
            obtain ⟨rfl, rfl⟩ := h
            obtain ⟨hsur, hbytes⟩ := utf8Bytes_three h3 h4 hd he rfl
            exact ⟨hsur, [d, e], tail, rfl, hbytes, rfl⟩
          · cases h
        · cases h
      · cases h
    · cases h
  by_cases h5 : b.toNat < 0xF5
  · rw [if_neg h1, if_neg h2, if_neg h3, if_neg h4, if_pos h5] at h
    split at h
    · rename_i d rest
      split at h
      · rename_i hd
        split at h
        · rename_i e rest
          split at h
          · rename_i he
            split at h
            · rename_i f tail
              split at h
              · rename_i hf
                simp only [Prod.mk.injEq, Option.some.injEq] at h
                obtain ⟨rfl, rfl⟩ := h
                obtain ⟨hsur, hbytes⟩ := utf8Bytes_four h4 h5 hd he hf rfl
                exact ⟨hsur, [d, e, f], tail, rfl, hbytes, rfl⟩
              · cases h
            · cases h
          · cases h
        · cases h
      · cases h
    · cases h
  · rw [if_neg h1, if_neg h2, if_neg h3, if_neg h4, if_neg h5] at h
    cases h

/-- Strict decoding accepts the encodings of scalar values, and nothing else. -/
theorem of_utf8Chars {s : Str} {b : Bytes} (h : utf8Chars false 0 b = s.map some) : Scalar s ∧ utf8 s = b := by
  induction s generalizing b with
  | nil =>
    cases b with
    | nil => exact ⟨by simp [Scalar], rfl⟩
    | cons x bs => cases h
  | cons c s ih =>
    cases b with
    | nil => cases h
    | cons x bs =>
      obtain ⟨o, n, hstep⟩ : ∃ o n, utf8Step false x bs = (o, n) := ⟨_, _, rfl⟩
      simp only [utf8Chars, hstep, List.map_cons, List.cons.injEq] at h
      obtain ⟨rfl, hrest⟩ := h
      obtain ⟨hsur, bs', tail, rfl, hbytes, rfl⟩ := exists_of_utf8Step hstep
      rw [Nat.add_sub_cancel, utf8Chars_skip] at hrest
      obtain ⟨hs, rfl⟩ := ih hrest
      exact ⟨scalar_cons.mpr ⟨hsur, hs⟩, by rw [utf8_cons, hbytes, List.cons_append]⟩

theorem decodeUtf8_eq_some {b : Bytes} {s : Str} : decodeUtf8 b = some s ↔ Scalar s ∧ utf8 s = b := by
  constructor
  · intro h
    exact of_utf8Chars (eq_map_of_allSome h)
  · rintro ⟨hs, rfl⟩
    exact decodeUtf8_utf8 hs

theorem utf8_injective {s t : Str} (hs : Scalar s) (ht : Scalar t) (h : utf8 s = utf8 t) : s = t := by
  have hdecode := decodeUtf8_utf8 hs
  rw [h, decodeUtf8_utf8 ht] at hdecode
  exact (Option.some.inj hdecode).symm

/-! ### UTF-16 and UTF-32, with `surrogatepass` -/

def isHighSurrogate (n : Nat) : Bool := 0xD800 ≤ n && n ≤ 0xDBFF

def isLowSurrogate (n : Nat) : Bool := 0xDC00 ≤ n && n ≤ 0xDFFF

/-- The code point a surrogate pair stands for. -/
def joinSurrogates (high low : Nat) : CodePoint :=
  codePoint (0x10000 + (high - 0xD800) * 1024 + (low - 0xDC00))

/-- Code units to code points: surrogate pairs are joined, lone surrogates pass. -/
def joinUnits : List Nat → Str
  | [] => []
  | [n] => [codePoint n]
  | n :: m :: rest =>
    if isHighSurrogate n && isLowSurrogate m then joinSurrogates n m :: joinUnits rest
    else codePoint n :: joinUnits (m :: rest)

/-- The 16-bit units of a byte string of even length. -/
def units16 (bigEndian : Bool) : Bytes → Option (List Nat)
  | [] => some []
  | [_] => none
  | a :: b :: rest =>
    (units16 bigEndian rest).map ((if bigEndian then ofBe [a, b] else ofBe [b, a]) :: ·)

/-- `b.decode("utf-16-be", "surrogatepass")` and its little-endian twin. -/
def decodeUtf16 (bigEndian : Bool) (b : Bytes) : Option Str := (units16 bigEndian b).map joinUnits

/-- `b.decode("utf-32-be", "surrogatepass")` and its little-endian twin. -/
def decodeUtf32 (bigEndian : Bool) : Bytes → Option Str
  | [] => some []
  | a :: b :: c :: d :: rest =>
    let n := if bigEndian then ofBe [a, b, c, d] else ofBe [d, c, b, a]
    if n < 0x110000 then (decodeUtf32 bigEndian rest).map (codePoint n :: ·) else none
  | _ => none

end Wire
