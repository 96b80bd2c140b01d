import SkPqc.Wire.JsonRoundTrip

/-!
# `json.loads` with a recursion limit

The scanner of CPython's `json` enters one level for every bracket that it opens, and raises `RecursionError`
at the first bracket that the interpreter has no level left for. `loadsWithin` is that scanner. It is
compared with the one without a limit (`loadsWithin_eq`): the limited one gives up exactly on the texts that
nest past the limit before their first syntax error, and reads every other text alike. The text of a value
nests as deep as the value (`nesting_dumps`).
-/

namespace Wire
namespace Json

/-- What stops the scanner: the text is no JSON, or it opens a bracket on the last level. -/
inductive Stop where
  | malformed
  | tooDeep
  deriving DecidableEq

/-- The scanner without a limit stops for one reason only. -/
def orMalformed {α : Type} : Option α → Except Stop α
  | none => .error .malformed
  | some a => .ok a

section Limited
variable (floatText : Str → Str)

mutual
/-- `scan_once` with room for this many levels of arrays and objects. -/
def scanValue : (levels fuel : Nat) → Str → Except Stop (Json × Str)
  | _, 0, _ => .error .malformed
  | _, _ + 1, [] => .error .malformed
  | levels, fuel + 1, c :: rest =>
    if c = quote then orMalformed ((scanString rest).map fun p => (str p.1, p.2))
    else if c = lbrace then
      if levels = 0 then .error .tooDeep
      else
        match skipWs rest with
        | [] => .error .malformed
        | d :: after =>
          if d = rbrace then .ok (obj [], after)
          else (scanMembers (levels - 1) fuel (d :: after)).map fun p => (obj (dictOf p.1), p.2)
    else if c = lbracket then
      if levels = 0 then .error .tooDeep
      else
        match skipWs rest with
        | [] => .error .malformed
        | d :: after =>
          if d = rbracket then .ok (arr [], after)
          else (scanItems (levels - 1) fuel (d :: after)).map fun p => (arr p.1, p.2)
    else orMalformed ((parseConstant (c :: rest)).or (parseNumber floatText (c :: rest)))
/-- The items of an array up to its closing bracket, from the first item on. -/
def scanItems : (levels fuel : Nat) → Str → Except Stop (List Json × Str)
  | _, 0, _ => .error .malformed
  | levels, fuel + 1, s =>
    match scanValue levels fuel s with
    | .error stop => .error stop
    | .ok (v, rest) =>
      match skipWs rest with
      | [] => .error .malformed
      | d :: after =>
        if d = rbracket then .ok ([v], after)
        else if d = comma then (scanItems levels fuel (skipWs after)).map fun p => (v :: p.1, p.2)
        else .error .malformed
/-- The members of an object up to its closing brace, from the first key on. -/
def scanMembers : (levels fuel : Nat) → Str → Except Stop (List (Str × Json) × Str)
  | _, 0, _ => .error .malformed
  | _, _ + 1, [] => .error .malformed
  | levels, fuel + 1, q :: s =>
    if q = quote then
      match scanString s with
      | none => .error .malformed
      | some (k, rest) =>
        match skipWs rest with
        | [] => .error .malformed
        | d :: after =>
          if d = colon then
            match scanValue levels fuel (skipWs after) with
            | .error stop => .error stop
            | .ok (v, rest) =>
              match skipWs rest with
              | [] => .error .malformed
              | d :: after =>
                if d = rbrace then .ok ([(k, v)], after)
                else if d = comma then
                  (scanMembers levels fuel (skipWs after)).map fun p => ((k, v) :: p.1, p.2)
                else .error .malformed
          else .error .malformed
    else .error .malformed
end

/-- `json.loads(s)` on a `str`, with room for this many levels. -/
def loadsWithin (levels : Nat) (s : Str) : Except Stop Json :=
  if s.head? = some (codePoint 0xFEFF) then .error .malformed
  else
    match scanValue floatText levels (2 * s.length + 2) (skipWs s) with
    | .error stop => .error stop
    | .ok (v, rest) => if skipWs rest = [] then .ok v else .error .malformed

/-! ### How deep a text nests -/

mutual
/-- The most brackets that are open at once while a value is read, up to its end or to the first syntax error. -/
def valueNesting : (fuel : Nat) → Str → Nat
  | 0, _ => 0
  | _ + 1, [] => 0
  | fuel + 1, c :: rest =>
    if c = lbrace then
      1 + match skipWs rest with
        | [] => 0
        | d :: after => if d = rbrace then 0 else membersNesting fuel (d :: after)
    else if c = lbracket then
      1 + match skipWs rest with
        | [] => 0
        | d :: after => if d = rbracket then 0 else itemsNesting fuel (d :: after)
    else 0
def itemsNesting : (fuel : Nat) → Str → Nat
  | 0, _ => 0
  | fuel + 1, s =>
    max (valueNesting fuel s) <|
      match parseValue floatText fuel s with
      | none => 0
      | some (_, rest) =>
        match skipWs rest with
        | [] => 0
        | d :: after => if d = comma then itemsNesting fuel (skipWs after) else 0
def membersNesting : (fuel : Nat) → Str → Nat
  | 0, _ => 0
  | _ + 1, [] => 0
  | fuel + 1, q :: s =>
    if q = quote then
      match scanString s with
      | none => 0
      | some (_, rest) =>
        match skipWs rest with
        | [] => 0
        | d :: after =>
          if d = colon then
            max (valueNesting fuel (skipWs after)) <|
              match parseValue floatText fuel (skipWs after) with
              | none => 0
              | some (_, rest) =>
                match skipWs rest with
                | [] => 0
                | d :: after => if d = comma then membersNesting fuel (skipWs after) else 0
          else 0
    else 0
end

/-- How deep a text nests, up to its first syntax error. -/
def nesting (s : Str) : Nat :=
  if s.head? = some (codePoint 0xFEFF) then 0 else valueNesting floatText (2 * s.length + 2) (skipWs s)

/-! ### The limited scanner against the other one -/

/-- What becomes of a scan without a limit that nests `depth` levels deep. -/
def limited {α : Type} (levels depth : Nat) (scan : Option α) : Except Stop α :=
  if levels < depth then .error .tooDeep else orMalformed scan

theorem limited_zero {α : Type} (levels : Nat) (scan : Option α) : limited levels 0 scan = orMalformed scan :=
  if_neg (Nat.not_lt_zero levels)

theorem limited_none {α : Type} (levels : Nat) : limited levels 0 (none : Option α) = .error .malformed :=
  limited_zero levels none

theorem limited_some {α : Type} (levels : Nat) (a : α) : limited levels 0 (some a) = .ok a :=
  limited_zero levels (some a)

theorem map_limited {α β : Type} (f : α → β) (levels depth : Nat) (scan : Option α) :
    (limited levels depth scan).map f = limited levels depth (scan.map f) := by
  unfold limited
  split
  · rfl
  · cases scan <;> rfl

/-- A bracket takes one level. -/
theorem limited_bracket {α : Type} (levels depth : Nat) (scan : Option α) :
    limited levels (1 + depth) scan = if levels = 0 then .error .tooDeep else limited (levels - 1) depth scan := by
  by_cases hzero : levels = 0
  · rw [if_pos hzero]
    exact if_pos (by omega)
  · have hiff : levels < 1 + depth ↔ levels - 1 < depth := by omega
    simp only [limited, hiff, if_neg hzero]

/-- Of two scans in a row the second one is reached only where the first one stays within the limit. -/
theorem limited_max {α : Type} (levels m n : Nat) (scan : Option α) :
    limited levels (max m n) scan = if levels < m then .error .tooDeep else limited levels n scan := by
  by_cases hm : levels < m
  · rw [if_pos hm]
    exact if_pos (lt_max_of_lt_left hm)
  · have hiff : levels < max m n ↔ levels < n := by omega
    simp only [limited, hiff, if_neg hm]

theorem scanItems_succ {fuel : Nat}
    (hvalue : ∀ levels s, scanValue floatText levels fuel s =
      limited levels (valueNesting floatText fuel s) (parseValue floatText fuel s))
    (hitems : ∀ levels s, scanItems floatText levels fuel s =
      limited levels (itemsNesting floatText fuel s) (parseItems floatText fuel s)) (levels : Nat) (s : Str) :
    scanItems floatText levels (fuel + 1) s =
      limited levels (itemsNesting floatText (fuel + 1) s) (parseItems floatText (fuel + 1) s) := by
  rw [scanItems, itemsNesting, parseItems, hvalue, limited_max]
  by_cases hdeep : levels < valueNesting floatText fuel s
  · rw [limited, if_pos hdeep, if_pos hdeep]
  rw [limited, if_neg hdeep, if_neg hdeep]
  cases parseValue floatText fuel s with
  | none => exact (limited_none levels).symm
  | some p =>
    obtain ⟨v, rest⟩ := p
    simp only [orMalformed]
    cases skipWs rest with
    | nil => exact (limited_none levels).symm
    | cons d after =>
      by_cases hclose : d = rbracket
      · have hcomma : d ≠ comma := by
          rw [hclose]
          decide
        simp only [if_pos hclose, if_neg hcomma, limited_some]
      by_cases hcomma : d = comma
      · simp only [if_neg hclose, if_pos hcomma, hitems, map_limited]
      · simp only [if_neg hclose, if_neg hcomma]
        exact (limited_none levels).symm

theorem scanMembers_succ {fuel : Nat}
    (hvalue : ∀ levels s, scanValue floatText levels fuel s =
      limited levels (valueNesting floatText fuel s) (parseValue floatText fuel s))
    (hmembers : ∀ levels s, scanMembers floatText levels fuel s =
      limited levels (membersNesting floatText fuel s) (parseMembers floatText fuel s)) (levels : Nat) (s : Str) :
    scanMembers floatText levels (fuel + 1) s =
      limited levels (membersNesting floatText (fuel + 1) s) (parseMembers floatText (fuel + 1) s) := by
  cases s with
  | nil => exact (limited_none levels).symm
  | cons q s =>
    rw [scanMembers, membersNesting, parseMembers]
    by_cases hquote : q = quote
    swap
    · simp only [if_neg hquote]
      exact (limited_none levels).symm
    simp only [if_pos hquote]
    cases scanString s with
    | none => exact (limited_none levels).symm
    | some key =>
      obtain ⟨k, rest⟩ := key
      dsimp only
      cases skipWs rest with
      | nil => exact (limited_none levels).symm
      | cons d after =>
        by_cases hcolon : d = colon
        swap
        · simp only [if_neg hcolon]
          exact (limited_none levels).symm
        simp only [if_pos hcolon, hvalue, limited_max]
        by_cases hdeep : levels < valueNesting floatText fuel (skipWs after)
        · rw [limited, if_pos hdeep, if_pos hdeep]
        rw [limited, if_neg hdeep, if_neg hdeep]
        cases parseValue floatText fuel (skipWs after) with
        | none => exact (limited_none levels).symm
        | some p =>
          obtain ⟨v, rest⟩ := p
          simp only [orMalformed]
          cases skipWs rest with
          | nil => exact (limited_none levels).symm
          | cons d after =>
            by_cases hclose : d = rbrace
            · have hcomma : d ≠ comma := by
                rw [hclose]
                decide
              simp only [if_pos hclose, if_neg hcomma, limited_some]
            by_cases hcomma : d = comma
            · simp only [if_neg hclose, if_pos hcomma, hmembers, map_limited]
            · simp only [if_neg hclose, if_neg hcomma]
              exact (limited_none levels).symm

theorem scanValue_succ {fuel : Nat}
    (hitems : ∀ levels s, scanItems floatText levels fuel s =
      limited levels (itemsNesting floatText fuel s) (parseItems floatText fuel s))
    (hmembers : ∀ levels s, scanMembers floatText levels fuel s =
      limited levels (membersNesting floatText fuel s) (parseMembers floatText fuel s)) (levels : Nat) (s : Str) :
    scanValue floatText levels (fuel + 1) s =
      limited levels (valueNesting floatText (fuel + 1) s) (parseValue floatText (fuel + 1) s) := by
  cases s with
  | nil => exact (limited_none levels).symm
  | cons c rest =>
    rw [scanValue, valueNesting, parseValue]
    by_cases hbrace : c = lbrace
    · have hquote : c ≠ quote := by
        rw [hbrace]
        decide
      simp only [if_neg hquote, if_pos hbrace, limited_bracket]
      congr 1
      cases skipWs rest with
      | nil => exact (limited_none _).symm
      | cons d after =>
        by_cases hclose : d = rbrace
        · simp only [if_pos hclose, limited_some]
        · simp only [if_neg hclose, hmembers, map_limited]
    by_cases hbracket : c = lbracket
    · have hquote : c ≠ quote := by
        rw [hbracket]
        decide
      simp only [if_neg hquote, if_neg hbrace, if_pos hbracket, limited_bracket]
      congr 1
      cases skipWs rest with
      | nil => exact (limited_none _).symm
      | cons d after =>
        by_cases hclose : d = rbracket
        · simp only [if_pos hclose, limited_some]
        · simp only [if_neg hclose, hitems, map_limited]
    · simp only [if_neg hbrace, if_neg hbracket, limited_zero]
      split <;> rfl

/-- On every text the limited scanner gives up where the text nests past the limit, and otherwise reads it as the
scanner without a limit does. -/
theorem scan_eq (fuel : Nat) :
    (∀ levels s, scanValue floatText levels fuel s =
      limited levels (valueNesting floatText fuel s) (parseValue floatText fuel s)) ∧
    (∀ levels s, scanItems floatText levels fuel s =
      limited levels (itemsNesting floatText fuel s) (parseItems floatText fuel s)) ∧
    ∀ levels s, scanMembers floatText levels fuel s =
      limited levels (membersNesting floatText fuel s) (parseMembers floatText fuel s) := by
  induction fuel with
  | zero =>
    refine ⟨?_, ?_, ?_⟩ <;> intro levels s <;> exact (limited_none levels).symm
  | succ fuel ih =>
    obtain ⟨hvalue, hitems, hmembers⟩ := ih
    exact ⟨scanValue_succ floatText hitems hmembers, scanItems_succ floatText hvalue hitems,
      scanMembers_succ floatText hvalue hmembers⟩

theorem loadsWithin_eq (levels : Nat) (s : Str) :
    loadsWithin floatText levels s = limited levels (nesting floatText s) (loads floatText s) := by
  unfold loadsWithin nesting loads
  by_cases hbom : s.head? = some (codePoint 0xFEFF)
  · simp only [if_pos hbom]
    exact (limited_none levels).symm
  simp only [if_neg hbom, (scan_eq floatText _).1, decode, limited]
  by_cases hdeep : levels < valueNesting floatText (2 * s.length + 2) (skipWs s)
  · simp only [if_pos hdeep]
  · simp only [if_neg hdeep]
    cases parseValue floatText (2 * s.length + 2) (skipWs s) with
    | none => rfl
    | some p =>
      dsimp only [orMalformed]
      split <;> rfl

/-! ### Texts that open only -/

/-- `n` opening brackets nest `n` deep at least, whatever follows them. -/
theorem le_valueNesting (n : Nat) : ∀ (fuel : Nat) (rest : Str), 2 * n ≤ fuel →
    n ≤ valueNesting floatText fuel (List.replicate n lbracket ++ rest) := by
  induction n with
  | zero => exact fun _ _ _ => Nat.zero_le _
  | succ n ih =>
    intro fuel rest hfuel
    obtain ⟨fuel, rfl⟩ : ∃ m, fuel = m + 2 := ⟨fuel - 2, by omega⟩
    rw [List.replicate_succ, List.cons_append, valueNesting, if_neg (by decide), if_pos rfl]
    cases n with
    | zero => exact Nat.le_add_right 1 _
    | succ n =>
      have hinner := ih fuel rest (by omega)
      rw [List.replicate_succ, List.cons_append] at hinner ⊢
      rw [skipWs_cons (by decide)]
      simp only [if_neg (show lbracket ≠ rbracket by decide), itemsNesting]
      exact (Nat.add_comm _ 1).trans_le (Nat.add_le_add_left (le_max_of_le_left hinner) 1)

theorem le_nesting (n : Nat) (rest : Str) : n ≤ nesting floatText (List.replicate n lbracket ++ rest) := by
  cases n with
  | zero => exact Nat.zero_le _
  | succ n =>
    have hfuel : 2 * (n + 1) ≤ 2 * (List.replicate (n + 1) lbracket ++ rest).length + 2 := by
      rw [List.length_append, List.length_replicate]
      omega
    have hdeep := le_valueNesting floatText (n + 1) _ rest hfuel
    rw [List.replicate_succ, List.cons_append] at hdeep ⊢
    rw [nesting, if_neg, skipWs_cons (by decide)]
    · exact hdeep
    · rw [List.head?_cons]
      decide

end Limited

/-! ### Texts of values -/

mutual
/-- How many arrays and objects of a value stand inside each other. -/
def depth : Json → Nat
  | arr items => 1 + depthItems items
  | obj members => 1 + depthMembers members
  | _ => 0
def depthItems : List Json → Nat
  | [] => 0
  | x :: xs => max (depth x) (depthItems xs)
def depthMembers : List (Str × Json) → Nat
  | [] => 0
  | (_, v) :: ms => max (depth v) (depthMembers ms)
end

theorem depthMembers_eq_foldr (members : List (Str × Json)) :
    depthMembers members = (members.map fun m => depth m.2).foldr max 0 := by
  induction members with
  | nil => rfl
  | cons m ms ih => rw [depthMembers, ih, List.map_cons, List.foldr_cons]

mutual
theorem depth_sortKeys : ∀ v : Json, v.sortKeys.depth = v.depth
  | null | bool _ | int _ | float _ | str _ => rfl
  | arr items => by rw [sortKeys, depth, depth, depthItems_sortKeys]
  | obj members => by
    rw [sortKeys, depth, depth, ← depthMembers_sortKeys members, depthMembers_eq_foldr, depthMembers_eq_foldr,
      ((sortMembers_perm _).map fun m => depth m.2).foldr_op_eq]
theorem depthItems_sortKeys : ∀ items : List Json, depthItems (sortKeysItems items) = depthItems items
  | [] => rfl
  | x :: xs => by rw [sortKeysItems, depthItems, depthItems, depth_sortKeys x, depthItems_sortKeys xs]
theorem depthMembers_sortKeys :
    ∀ members : List (Str × Json), depthMembers (sortKeysMembers members) = depthMembers members
  | [] => rfl
  | (_, v) :: ms => by rw [sortKeysMembers, depthMembers, depthMembers, depth_sortKeys v, depthMembers_sortKeys ms]
end

section Printed
variable (floatText : Str → Str)

theorem valueNesting_flat {c : CodePoint} (hbrace : c ≠ lbrace) (hbracket : c ≠ lbracket) (fuel : Nat) (s : Str) :
    valueNesting floatText (fuel + 1) (c :: s) = 0 := by
  rw [valueNesting, if_neg hbrace, if_neg hbracket]

mutual
/-- While the text of a value is read, as many brackets are open at once as the value is deep. -/
theorem valueNesting_print : ∀ (v : Json) (fuel : Nat) (rest : Str), Plain v → 2 * v.print.length < fuel →
    valueNesting floatText fuel (v.print ++ rest) = v.depth
  | null, fuel + 1, rest, _, _ | bool true, fuel + 1, rest, _, _ | bool false, fuel + 1, rest, _, _ => rfl
  | str s, fuel + 1, rest, _, _ => valueNesting_flat floatText (by decide) (by decide) fuel _
  | int n, fuel + 1, rest, _, _ => by
    obtain ⟨d, ds, hd, hdigit⟩ := decimal_cons n.natAbs
    rw [print, printInt, hd]
    split
    · exact valueNesting_flat floatText (by decide) (by decide) fuel _
    · exact valueNesting_flat floatText (digit_ne hdigit (by decide)) (digit_ne hdigit (by decide)) fuel _
  | arr [], fuel + 1, rest, _, _ => by
    simp only [print, printItems, List.cons_append, List.nil_append]
    rw [valueNesting, if_neg (by decide), if_pos rfl, skipWs_cons (by decide)]
    simp only [if_true]
    rfl
  | arr (x :: xs), fuel + 1, rest, hv, hfuel => by
    have hitems := itemsNesting_print (x :: xs) fuel rest (by simp) hv (by
      simp only [print, List.length_cons] at hfuel
      omega)
    obtain ⟨c, s, hprint, hws, hbracket⟩ := print_cons hv.1
    obtain ⟨t, ht⟩ : ∃ t, printItems (x :: xs) = c :: t := by
      cases xs <;> (rw [printItems, hprint]; exact ⟨_, rfl⟩)
    rw [ht, List.cons_append] at hitems
    simp only [print, ht, List.cons_append]
    rw [valueNesting, if_neg (by decide), if_pos rfl, skipWs_cons hws]
    simp only [if_neg hbracket, hitems, depth]
  | obj [], fuel + 1, rest, _, _ => by
    simp only [print, printMembers, List.cons_append, List.nil_append]
    rw [valueNesting, if_pos rfl, skipWs_cons (by decide)]
    simp only [if_true]
    rfl
  | obj (m :: ms), fuel + 1, rest, hv, hfuel => by
    have hmembers := membersNesting_print (m :: ms) fuel rest (by simp) hv.2 (by
      simp only [print, List.length_cons] at hfuel
      omega)
    obtain ⟨t, ht⟩ : ∃ t, printMembers (m :: ms) = quote :: t := by
      cases ms <;> (rw [printMembers, printStr]; exact ⟨_, rfl⟩)
    rw [ht, List.cons_append] at hmembers
    simp only [print, ht, List.cons_append]
    rw [valueNesting, if_pos rfl, skipWs_cons (by decide)]
    simp only [if_neg (show quote ≠ rbrace by decide), hmembers, depth]
theorem itemsNesting_print : ∀ (items : List Json) (fuel : Nat) (rest : Str), items ≠ [] → PlainItems items →
    2 * (printItems items).length ≤ fuel →
    itemsNesting floatText fuel (printItems items ++ rest) = depthItems items
  | [_], 0, _, _, _, hfuel | _ :: _ :: _, 0, _, _, _, hfuel => by simp [printItems] at hfuel
  | [x], fuel + 1, rest, _, h, hfuel => by
    simp only [printItems, List.length_append, List.length_singleton] at hfuel
    have hnesting := valueNesting_print x fuel (rbracket :: rest) h.1 (by omega)
    have hx := parseValue_print floatText x fuel (rbracket :: rest) h.1
      (fun _ _ => numStop_cons (by decide) rest) (by omega)
    simp only [printItems, List.append_assoc, List.cons_append, List.nil_append]
    rw [itemsNesting, hnesting, hx]
    simp only [skipWs_cons (show isWs rbracket = false by decide), if_neg (show rbracket ≠ comma by decide), depthItems]
  | x :: y :: ys, fuel + 1, rest, _, h, hfuel => by
    rw [length_printItems_cons] at hfuel
    have hnesting := valueNesting_print x fuel (comma :: (printItems (y :: ys) ++ rest)) h.1 (by omega)
    have hx := parseValue_print floatText x fuel (comma :: (printItems (y :: ys) ++ rest)) h.1
      (fun _ _ => numStop_cons (by decide) _) (by omega)
    have hys := itemsNesting_print (y :: ys) fuel rest (by simp) h.2 (by omega)
    obtain ⟨c, s, hprint, hws, -⟩ := print_cons h.2.1
    have hskip : skipWs (printItems (y :: ys) ++ rest) = printItems (y :: ys) ++ rest := by
      cases ys <;> (rw [printItems, hprint]; exact skipWs_cons hws _)
    simp only [printItems, List.append_assoc, List.cons_append]
    rw [itemsNesting, hnesting, hx, depthItems]
    simp only [skipWs_cons (show isWs comma = false by decide), if_true, hskip, hys]
theorem membersNesting_print : ∀ (members : List (Str × Json)) (fuel : Nat) (rest : Str), members ≠ [] →
    PlainMembers members → 2 * (printMembers members).length ≤ fuel →
    membersNesting floatText fuel (printMembers members ++ rest) = depthMembers members
  | [(k, v)], fuel + 1, rest, _, h, hfuel => by
    simp only [printMembers, printStr, List.length_append, List.length_cons, List.length_nil] at hfuel
    have hnesting := valueNesting_print v fuel (rbrace :: rest) h.1.2 (by omega)
    have hv := parseValue_print floatText v fuel (rbrace :: rest) h.1.2
      (fun _ _ => numStop_cons (by decide) rest) (by omega)
    obtain ⟨c, s, hprint, hws, -⟩ := print_cons h.1.2
    have hskip : skipWs (v.print ++ (rbrace :: rest)) = v.print ++ (rbrace :: rest) := by
      rw [hprint]
      exact skipWs_cons hws _
    simp only [printMembers, printStr, List.append_assoc, List.cons_append, List.nil_append]
    rw [membersNesting, if_pos rfl, scanString_printStr h.1.1]
    simp only [skipWs_cons (show isWs colon = false by decide), if_true, hskip, hv, hnesting,
      skipWs_cons (show isWs rbrace = false by decide), if_neg (show rbrace ≠ comma by decide), depthMembers]
  | (k, v) :: m :: ms, fuel + 1, rest, _, h, hfuel => by
    simp only [printMembers, printStr, List.length_append, List.length_cons, List.length_nil] at hfuel
    have hnesting := valueNesting_print v fuel (comma :: (printMembers (m :: ms) ++ rest)) h.1.2 (by omega)
    have hv := parseValue_print floatText v fuel (comma :: (printMembers (m :: ms) ++ rest)) h.1.2
      (fun _ _ => numStop_cons (by decide) _) (by omega)
    have hms := membersNesting_print (m :: ms) fuel rest (by simp) h.2 (by omega)
    obtain ⟨c, s, hprint, hws, -⟩ := print_cons h.1.2
    have hskip : ∀ r, skipWs (v.print ++ r) = v.print ++ r := by
      intro r
      rw [hprint]
      exact skipWs_cons hws _
    have hskipMembers : skipWs (printMembers (m :: ms) ++ rest) = printMembers (m :: ms) ++ rest := by
      cases ms <;> (rw [printMembers, printStr]; exact skipWs_cons (by decide) _)
    simp only [printMembers, printStr, List.append_assoc, List.cons_append, List.nil_append]
    rw [membersNesting, if_pos rfl, scanString_printStr h.1.1, depthMembers]
    simp only [skipWs_cons (show isWs colon = false by decide), if_true, hskip, hv, hnesting,
      skipWs_cons (show isWs comma = false by decide), hskipMembers, hms]
end

/-- The text of a value nests as deep as the value. -/
theorem nesting_dumps {v : Json} (h : Plain v) : nesting floatText (dumps v) = v.depth := by
  have hbom : (dumps v).head? ≠ some (codePoint 0xFEFF) := by
    intro hhead
    exact absurd (printable_dumps h _ (List.mem_of_head? hhead)) (by decide)
  obtain ⟨c, s, hprint, hws, -⟩ := print_cons h.sortKeys
  have hskip : skipWs (dumps v) = dumps v := by rw [dumps, hprint, skipWs_cons hws]
  have hprinted := valueNesting_print floatText v.sortKeys (2 * (dumps v).length + 2) [] h.sortKeys (by
    rw [dumps]
    omega)
  rw [List.append_nil, depth_sortKeys] at hprinted
  rw [nesting, if_neg hbom, hskip]
  exact hprinted

end Printed

end Json
end Wire
