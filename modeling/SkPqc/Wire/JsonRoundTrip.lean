import Mathlib.Data.Nat.Digits.Lemmas
import SkPqc.Wire.JsonParse

/-!
# `json.loads` undoes `json.dumps`

The parser reads the text of every plain value back, by a mutual induction over values, items and
members. A printed string, array or object ends where its own closing character stands, so what
follows it is free; a printed number needs to be followed by something that does not continue it
(`NumStop`). The text is printable ASCII, so `detect_encoding` takes its bytes for UTF-8.

`loads_dumps` and `loadsBytes_dumps` are the round trips. `dumps_append_obj` says that the text of an
object is never a proper prefix of another's, and `dumps_eq_iff` that values have one text exactly when
they are equal up to the order of members.
-/

namespace Wire
namespace Json

/-! ### Strings -/

theorem eq_codePoint {c : CodePoint} {n : Nat} (hn : n < 0x110000) : c = codePoint n ↔ c.val = n := by
  rw [Fin.ext_iff, val_codePoint hn]

theorem backslash_ne_quote : backslash ≠ quote := by decide

theorem not_backslash_lt : ¬backslash.val < 0x20 := by decide

theorem hex4_hexDigit {n : Nat} (h : n < 65536) :
    hex4 (hexDigit (n / 4096)) (hexDigit (n / 256 % 16)) (hexDigit (n / 16 % 16)) (hexDigit (n % 16)) = some n := by
  simp only [hex4, hexVal_hexDigit _ (show n / 4096 < 16 by omega), hexVal_hexDigit _ (show n / 256 % 16 < 16 by omega),
    hexVal_hexDigit _ (show n / 16 % 16 < 16 by omega), hexVal_hexDigit _ (show n % 16 < 16 by omega)]
  congr 1
  omega

theorem scanString_literal {c : CodePoint} (hquote : c ≠ quote) (hbackslash : c ≠ backslash) (hc : 0x20 ≤ c.val)
    (s : Str) : scanString (c :: s) = push c (scanString s) := by
  rw [scanString.eq_def]
  simp only [if_neg hquote, if_neg (show ¬c.val < 0x20 by omega), if_neg hbackslash]

theorem scanString_short {e c : CodePoint} (he : e ≠ chr 'u') (h : unescape e = some c) (s : Str) :
    scanString (backslash :: e :: s) = push c (scanString s) := by
  rw [scanString.eq_def]
  simp only [if_neg backslash_ne_quote, if_neg not_backslash_lt, if_true, if_neg he, h]

theorem scanString_unit {n : Nat} (hn : n < 65536) (hhigh : isHighSurrogate n = false) (s : Str) :
    scanString (uEscape n ++ s) = push (codePoint n) (scanString s) := by
  simp only [uEscape, List.cons_append, List.nil_append]
  rw [scanString.eq_def]
  simp only [if_neg backslash_ne_quote, if_neg not_backslash_lt, if_true, hex4_hexDigit hn, hhigh,
    Bool.false_eq_true, if_false]

theorem scanString_pair {n m : Nat} (hn : n < 65536) (hhigh : isHighSurrogate n = true) (hm : m < 65536)
    (hlow : isLowSurrogate m = true) (s : Str) :
    scanString (uEscape n ++ (uEscape m ++ s)) = push (joinSurrogates n m) (scanString s) := by
  simp only [uEscape, List.cons_append, List.nil_append]
  rw [scanString.eq_def]
  simp only [if_neg backslash_ne_quote, if_neg not_backslash_lt, if_true, hex4_hexDigit hn, hhigh, hex4_hexDigit hm,
    hlow, and_self]

theorem scanString_escapeChar {c : CodePoint} (hc : isSurrogate c = false) (s : Str) :
    scanString (escapeChar c ++ s) = push c (scanString s) := by
  have hval : ∀ n, c.val = n → codePoint n = c := fun n h => h ▸ codePoint_val c
  have hlt := c.isLt
  have hsur : ¬(0xD800 ≤ c.val ∧ c.val ≤ 0xDFFF) := by simpa [isSurrogate] using hc
  unfold escapeChar
  dsimp only
  split_ifs with h1 h2 h3 h4 h5 h6 h7 h8 h9
  · exact hval _ h1 ▸ scanString_short (by decide) rfl s
  · exact hval _ h2 ▸ scanString_short (by decide) rfl s
  · exact hval _ h3 ▸ scanString_short (by decide) rfl s
  · exact hval _ h4 ▸ scanString_short (by decide) rfl s
  · exact hval _ h5 ▸ scanString_short (by decide) rfl s
  · exact hval _ h6 ▸ scanString_short (by decide) rfl s
  · exact hval _ h7 ▸ scanString_short (by decide) rfl s
  · refine scanString_literal ?_ ?_ h8.1 s
    · rintro rfl; exact h1 rfl
    · rintro rfl; exact h2 rfl
  · have hhigh : isHighSurrogate c.val = false := by simp [isHighSurrogate]; omega
    rw [scanString_unit h9 hhigh, codePoint_val]
  · have hjoin : joinSurrogates (0xD800 + (c.val - 0x10000) / 1024) (0xDC00 + (c.val - 0x10000) % 1024) = c := by
      rw [joinSurrogates]
      exact hval _ (by omega)
    rw [List.append_assoc, scanString_pair (by omega) (by simp [isHighSurrogate]; omega) (by omega)
      (by simp [isLowSurrogate]; omega), hjoin]

theorem scanString_printStr {s : Str} (hs : Scalar s) (rest : Str) :
    scanString (s.flatMap escapeChar ++ quote :: rest) = some (s, rest) := by
  induction s with
  | nil => rw [List.flatMap_nil, List.nil_append, scanString.eq_def]; simp only [if_true]
  | cons c s ih =>
    obtain ⟨hc, hs⟩ := scalar_cons.mp hs
    rw [List.flatMap_cons, List.append_assoc, scanString_escapeChar hc, ih hs]
    rfl

/-! ### Numbers -/

theorem isDigit_decimal {n : Nat} {c : CodePoint} (hc : c ∈ decimal n) : isDigit c = true := by
  unfold decimal at hc
  split at hc
  · rw [List.mem_singleton] at hc
    subst hc
    decide
  · obtain ⟨d, hd, rfl⟩ := List.mem_map.mp hc
    have hlt : d < 10 := Nat.digits_lt_base (by omega) (List.mem_reverse.mp hd)
    simp only [isDigit, val_codePoint (show 0x30 + d < 0x110000 by omega), Bool.and_eq_true, decide_eq_true_eq]
    omega

theorem natOfDigits_decimal (n : Nat) : natOfDigits (decimal n) = n := by
  unfold decimal
  split
  · rename_i h
    subst h
    decide
  · have hfold : ∀ l : List Nat, (∀ d ∈ l, d < 10) →
        natOfDigits (l.reverse.map fun d => codePoint (0x30 + d)) = Nat.ofDigits 10 l := by
      intro l hl
      rw [natOfDigits, List.foldl_map, List.foldl_reverse, Nat.ofDigits_eq_foldr]
      refine List.foldr_ext _ _ 0 fun d hd acc => ?_
      rw [val_codePoint (by have := hl d hd; omega)]
      simp only [Nat.cast_id]
      omega
    rw [hfold _ fun d hd => Nat.digits_lt_base (by omega) hd, Nat.ofDigits_digits]

/-- The decimal digits of `n` do not start with `0`, except for `0` itself. -/
theorem decimal_head (n : Nat) :
    decimal n = [codePoint 0x30] ∨ ∃ d ds, decimal n = d :: ds ∧ d ≠ codePoint 0x30 := by
  unfold decimal
  split
  · exact Or.inl rfl
  · rename_i hn
    right
    have hne : Nat.digits 10 n ≠ [] := Nat.digits_ne_nil_iff_ne_zero.mpr hn
    have hlast := Nat.getLast_digit_ne_zero 10 hn
    have hlt : (Nat.digits 10 n).getLast hne < 10 := Nat.digits_lt_base (by omega) (List.getLast_mem hne)
    rw [← List.dropLast_append_getLast hne, List.reverse_append]
    refine ⟨_, _, rfl, ?_⟩
    rw [ne_eq, eq_codePoint (by omega), val_codePoint (by omega)]
    omega

/-- What may follow a printed integer: nothing that continues a number. -/
def NumStop (rest : Str) : Prop :=
  ∀ c ∈ rest.head?, isDigit c = false ∧ c ≠ chr '.' ∧ c ≠ chr 'e' ∧ c ≠ chr 'E'

theorem numStop_nil : NumStop [] := by simp [NumStop]

theorem spanDigits_append {ds rest : Str} (hds : ∀ c ∈ ds, isDigit c = true)
    (hrest : ∀ c ∈ rest.head?, isDigit c = false) : spanDigits (ds ++ rest) = (ds, rest) := by
  have hstop : rest.takeWhile isDigit = [] ∧ rest.dropWhile isDigit = rest := by
    cases rest with
    | nil => simp
    | cons c rest =>
      have hc : isDigit c = false := hrest c rfl
      simp [hc]
  rw [spanDigits, List.takeWhile_append_of_pos hds, List.dropWhile_append_of_pos hds, hstop.1, hstop.2,
    List.append_nil]

theorem scanIntPart_decimal (n : Nat) {rest : Str} (hrest : NumStop rest) :
    scanIntPart (decimal n ++ rest) = some (decimal n, rest) := by
  rcases decimal_head n with h | ⟨d, ds, h, hd⟩
  · rw [h]; rfl
  · have hspan := spanDigits_append (fun c hc => isDigit_decimal (n := n) hc) fun c hc => (hrest c hc).1
    have hdigit : isDigit d = true := isDigit_decimal (n := n) (by rw [h]; exact List.mem_cons_self)
    rw [h, List.cons_append] at hspan ⊢
    rw [scanIntPart, if_neg hd, if_pos hdigit, hspan]

theorem scanFrac_stop {rest : Str} (h : NumStop rest) : scanFrac rest = ([], rest) := by
  unfold scanFrac
  split
  · rename_i p d after
    rw [if_neg fun hc => (h p rfl).2.1 hc.1]
  · rfl

theorem scanExp_stop {rest : Str} (h : NumStop rest) : scanExp rest = ([], rest) := by
  unfold scanExp
  split
  · rfl
  · rename_i e after
    obtain ⟨-, -, he, hE⟩ := h e rfl
    rw [if_neg (by simp [he, hE])]

theorem parseNumber_printInt (floatText : Str → Str) (n : Int) {rest : Str} (h : NumStop rest) :
    parseNumber floatText (printInt n ++ rest) = some (int n, rest) := by
  unfold printInt
  split
  · rename_i hneg
    simp only [parseNumber, List.cons_append, if_true, scanIntPart_decimal n.natAbs h, scanFrac_stop h,
      scanExp_stop h, and_self, natOfDigits_decimal]
    rw [if_neg (by simp)]
    congr 3
    omega
  · rename_i hpos
    have hsigned : ∀ c ∈ (decimal n.natAbs ++ rest).head?, c ≠ minus := by
      intro c hc hminus
      rcases decimal_head n.natAbs with hd | ⟨d, ds, hd, -⟩
      · rw [hd] at hc
        cases hc
        exact absurd hminus (by decide)
      · have hdigit : isDigit d = true := isDigit_decimal (n := n.natAbs) (by rw [hd]; exact List.mem_cons_self)
        rw [hd] at hc
        cases hc
        subst hminus
        exact absurd hdigit (by decide)
    unfold parseNumber
    have hscan := scanIntPart_decimal n.natAbs h
    cases hs : decimal n.natAbs ++ rest with
    | nil => rw [hs] at hscan; simp [scanIntPart] at hscan
    | cons c s =>
      rw [hs] at hsigned hscan
      simp only [if_neg (hsigned c rfl), hscan, scanFrac_stop h, scanExp_stop h, and_self, if_true,
        natOfDigits_decimal]
      congr 3
      omega

/-! ### Values -/

theorem skipWs_cons {c : CodePoint} (h : isWs c = false) (s : Str) : skipWs (c :: s) = c :: s := by
  simp [skipWs, h]

theorem digit_ne {c d : CodePoint} (hc : isDigit c = true) (hd : isDigit d = false) : c ≠ d := by
  rintro rfl
  rw [hc] at hd
  cases hd

theorem isPrefixOf_false {w : Str} {a c : CodePoint} (h : c ≠ a) (s : Str) :
    (a :: w).isPrefixOf (c :: s) = false := by
  simp [List.isPrefixOf, Ne.symm h]

/-- No constant starts with a digit, or with `-` and a digit. -/
theorem parseConstant_digit {c : CodePoint} (hc : isDigit c = true) (s : Str) :
    parseConstant (c :: s) = none := by
  have hne : ∀ d : Char, isDigit (chr d) = false → c ≠ chr d := fun d hd => digit_ne hc hd
  have hnone : ∀ w ∈ constants, w.1.isPrefixOf (c :: s) = false := by
    intro w hw
    simp only [constants, List.mem_cons, List.not_mem_nil, or_false] at hw
    rcases hw with rfl | rfl | rfl | rfl | rfl | rfl
    all_goals exact isPrefixOf_false (hne _ (by decide)) s
  rw [parseConstant, List.find?_eq_none.mpr fun w hw => by simp [hnone w hw]]
  rfl

theorem parseConstant_minus {c : CodePoint} (hc : isDigit c = true) (s : Str) :
    parseConstant (minus :: c :: s) = none := by
  have hne : c ≠ chr 'I' := digit_ne hc (by decide)
  have hnone : ∀ w ∈ constants, w.1.isPrefixOf (minus :: c :: s) = false := by
    intro w hw
    simp only [constants, List.mem_cons, List.not_mem_nil, or_false] at hw
    rcases hw with rfl | rfl | rfl | rfl | rfl | rfl
    · exact isPrefixOf_false (by decide) _
    · exact isPrefixOf_false (by decide) _
    · exact isPrefixOf_false (by decide) _
    · exact isPrefixOf_false (by decide) _
    · exact isPrefixOf_false (by decide) _
    · have hsplit : Wire.str "-Infinity" = minus :: chr 'I' :: Wire.str "nfinity" := rfl
      simp [hsplit, List.isPrefixOf, Ne.symm hne]
  rw [parseConstant, List.find?_eq_none.mpr fun w hw => by simp [hnone w hw]]
  rfl

theorem decimal_cons (n : Nat) : ∃ d ds, decimal n = d :: ds ∧ isDigit d = true := by
  rcases decimal_head n with h | ⟨d, ds, h, -⟩
  · exact ⟨_, _, h, by decide⟩
  · exact ⟨d, ds, h, isDigit_decimal (n := n) (by rw [h]; exact List.mem_cons_self)⟩

/-- A printed value starts with a character that is neither white space nor a closing bracket. -/
theorem print_cons {v : Json} (hv : Plain v) : ∃ c s, v.print = c :: s ∧ isWs c = false ∧ c ≠ rbracket := by
  cases v with
  | null => exact ⟨_, _, rfl, by decide, by decide⟩
  | bool b => cases b <;> exact ⟨_, _, rfl, by decide, by decide⟩
  | int n =>
    obtain ⟨d, ds, hd, hdigit⟩ := decimal_cons n.natAbs
    simp only [print, printInt]
    split
    · exact ⟨_, _, rfl, by decide, by decide⟩
    · refine ⟨d, ds, hd, ?_, digit_ne hdigit (by decide)⟩
      simp only [isDigit, Bool.and_eq_true, decide_eq_true_eq] at hdigit
      simp only [isWs, Bool.or_eq_false_iff, decide_eq_false_iff_not]
      omega
  | float text => exact hv.elim
  | str s => exact ⟨_, _, rfl, by decide, by decide⟩
  | arr items => exact ⟨_, _, rfl, by decide, by decide⟩
  | obj members => exact ⟨_, _, rfl, by decide, by decide⟩

theorem dictSet_of_notMem {ms : List (Str × Json)} {key : Str} (h : key ∉ ms.map Prod.fst) (value : Json) :
    dictSet ms key value = ms ++ [(key, value)] := by
  have hany : ms.any (fun m => m.1 = key) = false := by
    rw [List.any_eq_false]
    intro m hm hkey
    exact h (List.mem_map.mpr ⟨m, hm, of_decide_eq_true hkey⟩)
  rw [dictSet, hany]
  rfl

/-- Distinct keys build the `dict` with exactly these members. -/
theorem dictOf_of_nodup {ms : List (Str × Json)} (h : (ms.map Prod.fst).Nodup) : dictOf ms = ms := by
  have hfold : ∀ (ms d : List (Str × Json)), ((d ++ ms).map Prod.fst).Nodup →
      ms.foldl (fun d m => dictSet d m.1 m.2) d = d ++ ms := by
    intro ms
    induction ms with
    | nil => simp
    | cons m ms ih =>
      intro d hd
      have hnotMem : m.1 ∉ d.map Prod.fst := by
        rw [List.map_append, List.nodup_append] at hd
        exact fun hm => hd.2.2 _ hm _ (by simp) rfl
      rw [List.foldl_cons, dictSet_of_notMem hnotMem, ih _ (by simpa using hd), List.append_assoc]
      rfl
  exact hfold ms [] h

theorem parseNumber_value (floatText : Str → Str) (n : Int) {rest : Str} (h : NumStop rest) (fuel : Nat) :
    parseValue floatText (fuel + 1) (printInt n ++ rest) = some (int n, rest) := by
  have hnumber := parseNumber_printInt floatText n h
  obtain ⟨d, ds, hd, hdigit⟩ := decimal_cons n.natAbs
  unfold printInt at hnumber ⊢
  rw [hd] at hnumber ⊢
  split at hnumber
  · rename_i hneg
    rw [if_pos hneg]
    simp only [List.cons_append] at hnumber ⊢
    rw [parseValue, if_neg (by decide), if_neg (by decide), if_neg (by decide), parseConstant_minus hdigit,
      hnumber]
    rfl
  · rename_i hpos
    rw [if_neg hpos]
    simp only [List.cons_append] at hnumber ⊢
    rw [parseValue, if_neg (digit_ne hdigit (by decide)), if_neg (digit_ne hdigit (by decide)),
      if_neg (digit_ne hdigit (by decide)), parseConstant_digit hdigit, hnumber]
    rfl

theorem numStop_cons {c : CodePoint} (hc : isDigit c = false ∧ c ≠ chr '.' ∧ c ≠ chr 'e' ∧ c ≠ chr 'E')
    (rest : Str) : NumStop (c :: rest) := by
  intro d hd
  cases hd
  exact hc

theorem length_printItems_cons (x y : Json) (ys : List Json) :
    (printItems (x :: y :: ys)).length = x.print.length + 1 + (printItems (y :: ys)).length := by
  simp only [printItems, List.length_append, List.length_cons]
  omega

mutual
theorem parseValue_print (floatText : Str → Str) : ∀ (v : Json) (fuel : Nat) (rest : Str), Plain v →
    (∀ n, v = int n → NumStop rest) → 2 * v.print.length < fuel →
    parseValue floatText fuel (v.print ++ rest) = some (v, rest)
  | null, fuel + 1, rest, _, _, _ => rfl
  | bool true, fuel + 1, rest, _, _, _ => rfl
  | bool false, fuel + 1, rest, _, _, _ => rfl
  | int n, fuel + 1, rest, _, hrest, _ => parseNumber_value floatText n (hrest n rfl) fuel
  | str s, fuel + 1, rest, hv, _, _ => by
    simp only [print, printStr, List.cons_append, List.append_assoc, List.nil_append]
    rw [parseValue, if_pos rfl, scanString_printStr hv]
    rfl
  | arr [], fuel + 1, rest, _, _, _ => by
    simp only [print, printItems, List.cons_append, List.nil_append]
    rw [parseValue, if_neg (by decide), if_neg (by decide), if_pos rfl, skipWs_cons (by decide)]
    simp only [if_true]
  | arr (x :: xs), fuel + 1, rest, hv, _, hfuel => by
    have hitems := parseItems_print floatText (x :: xs) fuel rest (by simp) hv (by
      simp only [print, List.length_cons] at hfuel
      omega)
    obtain ⟨c, s, hprint, hws, hbracket⟩ := print_cons hv.1
    obtain ⟨t, ht⟩ : ∃ t, printItems (x :: xs) = c :: t := by
      cases xs <;> (rw [printItems, hprint]; exact ⟨_, rfl⟩)
    rw [ht, List.cons_append] at hitems
    simp only [print, ht, List.cons_append]
    rw [parseValue, if_neg (by decide), if_neg (by decide), if_pos rfl, skipWs_cons hws]
    simp only [if_neg hbracket, hitems, Option.map_some]
  | obj [], fuel + 1, rest, _, _, _ => by
    simp only [print, printMembers, List.cons_append, List.nil_append]
    rw [parseValue, if_neg (by decide), if_pos rfl, skipWs_cons (by decide)]
    simp only [if_true]
  | obj (m :: ms), fuel + 1, rest, hv, _, hfuel => by
    have hmembers := parseMembers_print floatText (m :: ms) fuel rest (by simp) hv.2 (by
      simp only [print, List.length_cons] at hfuel
      omega)
    obtain ⟨t, ht⟩ : ∃ t, printMembers (m :: ms) = quote :: t := by
      cases ms <;> (rw [printMembers, printStr]; exact ⟨_, rfl⟩)
    rw [ht, List.cons_append] at hmembers
    simp only [print, ht, List.cons_append]
    rw [parseValue, if_neg (by decide), if_pos rfl, skipWs_cons (by decide)]
    simp only [if_neg (show quote ≠ rbrace by decide), hmembers, Option.map_some, dictOf_of_nodup hv.1]
theorem parseItems_print (floatText : Str → Str) : ∀ (items : List Json) (fuel : Nat) (rest : Str),
    items ≠ [] → PlainItems items → 2 * (printItems items).length ≤ fuel →
    parseItems floatText fuel (printItems items ++ rest) = some (items, rest)
  | [_], 0, _, _, _, hfuel | _ :: _ :: _, 0, _, _, _, hfuel => by simp [printItems] at hfuel
  | [x], fuel + 1, rest, _, h, hfuel => by
    simp only [printItems, List.length_append, List.length_singleton] at hfuel
    have hx := parseValue_print floatText x fuel (rbracket :: rest) h.1
      (fun _ _ => numStop_cons (by decide) rest) (by omega)
    simp only [printItems, List.append_assoc, List.cons_append, List.nil_append]
    rw [parseItems, hx]
    simp only [skipWs_cons (show isWs rbracket = false by decide), if_true]
  | x :: y :: ys, fuel + 1, rest, _, h, hfuel => by
    rw [length_printItems_cons] at hfuel
    have hx := parseValue_print floatText x fuel (comma :: (printItems (y :: ys) ++ rest)) h.1
      (fun _ _ => numStop_cons (by decide) _) (by omega)
    have hys := parseItems_print floatText (y :: ys) fuel rest (by simp) h.2 (by omega)
    obtain ⟨c, s, hprint, hws, -⟩ := print_cons h.2.1
    have hskip : skipWs (printItems (y :: ys) ++ rest) = printItems (y :: ys) ++ rest := by
      cases ys <;> (rw [printItems, hprint]; exact skipWs_cons hws _)
    simp only [printItems, List.append_assoc, List.cons_append]
    rw [parseItems, hx]
    simp only [skipWs_cons (show isWs comma = false by decide), if_neg (show comma ≠ rbracket by decide),
      if_true, hskip, hys, Option.map_some]
theorem parseMembers_print (floatText : Str → Str) : ∀ (members : List (Str × Json)) (fuel : Nat) (rest : Str),
    members ≠ [] → PlainMembers members → 2 * (printMembers members).length ≤ fuel →
    parseMembers floatText fuel (printMembers members ++ rest) = some (members, rest)
  | [(k, v)], fuel + 1, rest, _, h, hfuel => by
    simp only [printMembers, printStr, List.length_append, List.length_cons, List.length_nil] at hfuel
    have hv := parseValue_print floatText v fuel (rbrace :: rest) h.1.2
      (fun _ _ => numStop_cons (by decide) rest) (by omega)
    obtain ⟨c, s, hprint, hws, -⟩ := print_cons h.1.2
    have hskip : skipWs (v.print ++ (rbrace :: rest)) = v.print ++ (rbrace :: rest) := by
      rw [hprint]
      exact skipWs_cons hws _
    simp only [printMembers, printStr, List.append_assoc, List.cons_append, List.nil_append]
    rw [parseMembers, if_pos rfl, scanString_printStr h.1.1]
    simp only [skipWs_cons (show isWs colon = false by decide), if_true, hskip, hv,
      skipWs_cons (show isWs rbrace = false by decide)]
  | (k, v) :: m :: ms, fuel + 1, rest, _, h, hfuel => by
    simp only [printMembers, printStr, List.length_append, List.length_cons, List.length_nil] at hfuel
    have hv := parseValue_print floatText v fuel (comma :: (printMembers (m :: ms) ++ rest)) h.1.2
      (fun _ _ => numStop_cons (by decide) _) (by omega)
    have hms := parseMembers_print floatText (m :: ms) fuel rest (by simp) h.2 (by omega)
    obtain ⟨c, s, hprint, hws, -⟩ := print_cons h.1.2
    have hskip : ∀ r, skipWs (v.print ++ r) = v.print ++ r := by
      intro r
      rw [hprint]
      exact skipWs_cons hws _
    have hskipMembers : skipWs (printMembers (m :: ms) ++ rest) = printMembers (m :: ms) ++ rest := by
      cases ms <;> (rw [printMembers, printStr]; exact skipWs_cons (by decide) _)
    simp only [printMembers, printStr, List.append_assoc, List.cons_append, List.nil_append]
    rw [parseMembers, if_pos rfl, scanString_printStr h.1.1]
    simp only [skipWs_cons (show isWs colon = false by decide), if_true, hskip, hv,
      skipWs_cons (show isWs comma = false by decide), if_neg (show comma ≠ rbrace by decide), hskipMembers,
      hms, Option.map_some]
end

/-! ### The text is printable ASCII -/

def isPrintable (c : CodePoint) : Bool := 0x20 ≤ c.val && c.val < 0x7F

/-- Printable ASCII: the only characters `json.dumps` puts out. -/
def Printable (s : Str) : Prop := ∀ c ∈ s, isPrintable c = true

theorem printable_of_all {s : Str} (h : s.all isPrintable = true) : Printable s := List.all_eq_true.mp h

@[simp] theorem printable_nil : Printable [] := by simp [Printable]

@[simp] theorem printable_cons {c : CodePoint} {s : Str} :
    Printable (c :: s) ↔ isPrintable c = true ∧ Printable s := by
  simp [Printable]

@[simp] theorem printable_append {s t : Str} : Printable (s ++ t) ↔ Printable s ∧ Printable t := by
  simp only [Printable, List.mem_append, or_imp, forall_and]

theorem isPrintable_iff {c : CodePoint} : isPrintable c = true ↔ 0x20 ≤ c.val ∧ c.val < 0x7F := by
  simp [isPrintable]

theorem Printable.scalar {s : Str} (h : Printable s) : Scalar s := by
  intro c hc
  have hrange := isPrintable_iff.mp (h c hc)
  simp only [isSurrogate, Bool.and_eq_false_iff, decide_eq_false_iff_not]
  omega

theorem isPrintable_hexDigit : ∀ n < 16, isPrintable (hexDigit n) = true := by decide

theorem printable_uEscape {n : Nat} (h : n < 65536) : Printable (uEscape n) := by
  simp only [uEscape, printable_cons, printable_nil, and_true]
  exact ⟨by decide, by decide, isPrintable_hexDigit _ (by omega), isPrintable_hexDigit _ (by omega),
    isPrintable_hexDigit _ (by omega), isPrintable_hexDigit _ (by omega)⟩

theorem printable_escapeChar (c : CodePoint) : Printable (escapeChar c) := by
  have hlt := c.isLt
  unfold escapeChar
  dsimp only
  split_ifs with h1 h2 h3 h4 h5 h6 h7 h8 h9
  iterate 7 exact printable_of_all (by decide)
  · exact printable_cons.mpr ⟨isPrintable_iff.mpr (by omega), printable_nil⟩
  · exact printable_uEscape h9
  · exact printable_append.mpr ⟨printable_uEscape (by omega), printable_uEscape (by omega)⟩

theorem printable_printStr (s : Str) : Printable (printStr s) := by
  rw [printStr, List.cons_append, printable_cons, printable_append]
  refine ⟨by decide, ?_, printable_of_all (by decide)⟩
  intro c hc
  obtain ⟨d, -, hd⟩ := List.mem_flatMap.mp hc
  exact printable_escapeChar d c hd

theorem printable_decimal (n : Nat) : Printable (decimal n) := by
  intro c hc
  have hdigit := isDigit_decimal hc
  simp only [isDigit, Bool.and_eq_true, decide_eq_true_eq] at hdigit
  exact isPrintable_iff.mpr (by omega)

theorem printable_printInt (n : Int) : Printable (printInt n) := by
  unfold printInt
  split
  · exact printable_cons.mpr ⟨by decide, printable_decimal _⟩
  · exact printable_decimal _

/-- The members print as printable text where their values do. -/
theorem printable_printMembers : ∀ {members : List (Str × Json)},
    (∀ m ∈ members, Printable m.2.print) → Printable (printMembers members)
  | [], _ => printable_of_all (by decide)
  | [(k, _)], h =>
    printable_append.mpr ⟨printable_printStr k, printable_cons.mpr ⟨by decide,
      printable_append.mpr ⟨h _ List.mem_cons_self, printable_of_all (by decide)⟩⟩⟩
  | (k, _) :: _ :: _, h =>
    printable_append.mpr ⟨printable_printStr k, printable_cons.mpr ⟨by decide,
      printable_append.mpr ⟨h _ List.mem_cons_self, printable_cons.mpr ⟨by decide,
        printable_printMembers fun m hm => h m (List.mem_cons_of_mem _ hm)⟩⟩⟩⟩

mutual
theorem printable_print : ∀ {v : Json}, Plain v → Printable v.print
  | null, _ | bool true, _ | bool false, _ => printable_of_all (by decide)
  | int n, _ => printable_printInt n
  | str s, _ => printable_printStr s
  | arr _, h => printable_cons.mpr ⟨by decide, printable_printItems h⟩
  | obj _, h => printable_cons.mpr ⟨by decide, printable_printMembers (printable_values h.2)⟩
theorem printable_printItems : ∀ {items : List Json}, PlainItems items → Printable (printItems items)
  | [], _ => printable_of_all (by decide)
  | [_], h => printable_append.mpr ⟨printable_print h.1, printable_of_all (by decide)⟩
  | _ :: _ :: _, h =>
    printable_append.mpr ⟨printable_print h.1, printable_cons.mpr ⟨by decide, printable_printItems h.2⟩⟩
theorem printable_values :
    ∀ {members : List (Str × Json)}, PlainMembers members → ∀ m ∈ members, Printable m.2.print
  | [], _ => by simp
  | (_, _) :: _, h => by
    intro m hm
    rcases List.mem_cons.mp hm with rfl | hm
    · exact printable_print h.1.2
    · exact printable_values h.2 m hm
end

theorem printable_dumps {v : Json} (h : Plain v) : Printable (dumps v) := printable_print h.sortKeys

theorem scalar_dumps {v : Json} (h : Plain v) : Scalar (dumps v) := (printable_dumps h).scalar

/-- An object prints as ASCII whatever code points its strings hold. -/
theorem scalar_dumps_obj {members : List (Str × Json)} (h : ∀ m ∈ members, Printable m.2.sortKeys.print) :
    Scalar (dumps (obj members)) := by
  refine Printable.scalar (printable_cons.mpr ⟨by decide, printable_printMembers ?_⟩)
  intro m hm
  have hmem := (sortMembers_perm _).subset hm
  rw [sortKeysMembers_eq_map] at hmem
  obtain ⟨m', hm', rfl⟩ := List.mem_map.mp hmem
  exact h m' hm'

/-- Bytes without a zero and below `0x80` are read as UTF-8. -/
theorem decodeDetected_ascii {b : Bytes} (h : ∀ x ∈ b, 0 < x.toNat ∧ x.toNat < 0x80) :
    decodeDetected b = decodeUtf8Surrogatepass b := by
  have hne : ∀ x ∈ b, ∀ y : UInt8, ¬(0 < y.toNat ∧ y.toNat < 0x80) → x ≠ y := by
    rintro x hx y hy rfl
    exact hy (h x hx)
  have hfront : ∀ (y : UInt8) (w : Bytes), ¬(0 < y.toNat ∧ y.toNat < 0x80) →
      (y :: w).isPrefixOf b = false := by
    intro y w hy
    cases b with
    | nil => rfl
    | cons x b =>
      have hyx := (hne x List.mem_cons_self y hy).symm
      simp [List.isPrefixOf, hyx]
  have hzero : ∀ x ∈ b, x ≠ 0 := fun x hx => hne x hx 0 (by decide)
  unfold decodeDetected
  simp only [hfront _ _ (show ¬(0 < (0x00 : UInt8).toNat ∧ (0x00 : UInt8).toNat < 0x80) by decide),
    hfront _ _ (show ¬(0 < (0xFF : UInt8).toNat ∧ (0xFF : UInt8).toNat < 0x80) by decide),
    hfront _ _ (show ¬(0 < (0xFE : UInt8).toNat ∧ (0xFE : UInt8).toNat < 0x80) by decide),
    hfront _ _ (show ¬(0 < (0xEF : UInt8).toNat ∧ (0xEF : UInt8).toNat < 0x80) by decide),
    Bool.false_eq_true, if_false]
  split
  · rename_i b₀ b₁ b₂ b₃ rest
    rw [if_neg (hzero b₀ (by simp)), if_neg (hzero b₁ (by simp))]
  · rename_i b₀ b₁
    rw [if_neg (hzero b₀ (by simp)), if_neg (hzero b₁ (by simp))]
  · rfl

theorem utf8_printable {s : Str} (h : Printable s) : ∀ x ∈ utf8 s, 0 < x.toNat ∧ x.toNat < 0x80 := by
  intro x hx
  obtain ⟨c, hc, hxc⟩ := List.mem_flatMap.mp hx
  have hrange := isPrintable_iff.mp (h c hc)
  rw [utf8Bytes, if_pos (by omega), List.mem_singleton] at hxc
  subst hxc
  simp only [UInt8.toNat_ofNat']
  omega

/-! ### Round trips -/

section RoundTrip
variable (floatText : Str → Str)

theorem decode_print {v : Json} (h : Plain v) : decode floatText v.print = some v := by
  obtain ⟨c, s, hprint, hws, -⟩ := print_cons h
  have hskip : skipWs v.print = v.print := by rw [hprint, skipWs_cons hws]
  have hparse := parseValue_print floatText v (2 * v.print.length + 2) [] h (fun _ _ => numStop_nil) (by omega)
  rw [List.append_nil] at hparse
  rw [decode, hskip, hparse]
  rfl

theorem loads_dumps {v : Json} (h : Plain v) : loads floatText (dumps v) = some v.sortKeys := by
  have hbom : (dumps v).head? ≠ some (codePoint 0xFEFF) := by
    intro hhead
    exact absurd (printable_dumps h _ (List.mem_of_head? hhead)) (by decide)
  rw [loads, if_neg hbom]
  exact decode_print floatText h.sortKeys

theorem loadsBytes_dumps {v : Json} (h : Plain v) :
    loadsBytes floatText (utf8 (dumps v)) = some v.sortKeys := by
  rw [loadsBytes, decodeDetected_ascii (utf8_printable (printable_dumps h)),
    decodeUtf8Surrogatepass_utf8 (scalar_dumps h)]
  exact decode_print floatText h.sortKeys

end RoundTrip

/-- The text of an object ends at its closing brace: what follows it cannot be read into it. -/
theorem dumps_append_obj {ms ms' : List (Str × Json)} {s s' : Str} (h : Plain (obj ms)) (h' : Plain (obj ms'))
    (heq : dumps (obj ms) ++ s = dumps (obj ms') ++ s') : sortKeys (obj ms) = sortKeys (obj ms') ∧ s = s' := by
  have hread : ∀ {ns : List (Str × Json)} (rest : Str), Plain (obj ns) → ∀ fuel, 2 * (dumps (obj ns)).length < fuel →
      parseValue id fuel (dumps (obj ns) ++ rest) = some (sortKeys (obj ns), rest) := by
    intro ns rest hns fuel hfuel
    exact parseValue_print id _ fuel rest hns.sortKeys (fun n hn => by simp [sortKeys] at hn) hfuel
  have hleft := hread s h (2 * (dumps (obj ms)).length + 2 * (dumps (obj ms')).length + 1) (by omega)
  have hright := hread s' h' (2 * (dumps (obj ms)).length + 2 * (dumps (obj ms')).length + 1) (by omega)
  rw [heq, hright] at hleft
  have hpair := Option.some.inj hleft
  exact ⟨(congrArg Prod.fst hpair).symm, (congrArg Prod.snd hpair).symm⟩

/-- A printable text is its bytes. -/
theorem decodeAscii_utf8 {s : Str} (h : Printable s) : decodeAscii (utf8 s) = s := by
  induction s with
  | nil => rfl
  | cons c s ih =>
    obtain ⟨hc, hs⟩ := printable_cons.mp h
    have hrange := isPrintable_iff.mp hc
    have hbyte : (UInt8.ofNat c.val).toNat = c.val := by
      rw [UInt8.toNat_ofNat']
      omega
    rw [utf8_cons, utf8Bytes, if_pos (by omega), decodeAscii, List.map_append, ← decodeAscii, ← decodeAscii, ih hs]
    simp only [decodeAscii, List.map_cons, List.map_nil, hbyte, codePoint_val, List.cons_append, List.nil_append]

/-- `dumps_append_obj` on the bytes of the text, followed by any bytes. -/
theorem utf8_dumps_append_obj {ms ms' : List (Str × Json)} {b b' : Bytes} (h : Plain (obj ms))
    (h' : Plain (obj ms')) (heq : utf8 (dumps (obj ms)) ++ b = utf8 (dumps (obj ms')) ++ b') :
    sortKeys (obj ms) = sortKeys (obj ms') ∧ b = b' := by
  have htext := congrArg decodeAscii heq
  have hsplit : ∀ x y : Bytes, decodeAscii (x ++ y) = decodeAscii x ++ decodeAscii y := fun x y => List.map_append
  rw [hsplit, hsplit, decodeAscii_utf8 (printable_dumps h), decodeAscii_utf8 (printable_dumps h')] at htext
  obtain ⟨hkeys, -⟩ := dumps_append_obj h h' htext
  refine ⟨hkeys, ?_⟩
  rw [dumps, dumps, hkeys] at heq
  exact List.append_cancel_left heq

theorem dumps_inj {v w : Json} (hv : Plain v) (hw : Plain w) (h : dumps v = dumps w) : v.sortKeys = w.sortKeys := by
  have hread := loads_dumps id hv
  rw [h, loads_dumps id hw] at hread
  exact (Option.some.inj hread).symm

/-- Two values have one text exactly when they are the same up to the order of members. -/
theorem dumps_eq_iff {v w : Json} (hv : Plain v) (hw : Plain w) : dumps v = dumps w ↔ Same v w := by
  rw [same_iff_sortKeys_eq hv hw]
  constructor
  · exact dumps_inj hv hw
  · intro h
    rw [dumps, dumps, h]

end Json
end Wire
