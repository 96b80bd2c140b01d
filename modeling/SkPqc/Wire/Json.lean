import Mathlib.Data.Nat.Digits.Defs
import SkPqc.Wire.Radix

/-!
# JSON values and `json.dumps`

JSON values as Python holds them, and the text `json.dumps(v, sort_keys=True, separators=(",", ":"))`
prints for one: ASCII only, members in key order at every level, no white space. Members of an
object are kept in insertion order, as in a Python `dict`; `Json.Same` is the equality of two values
up to that order.
-/

namespace Wire

/-- A JSON value. The members of an object are a Python `dict`: insertion order, distinct keys
(`Json.Plain` states it). A float is kept as the text `json.dumps` prints for it. -/
inductive Json where
  | null
  | bool (b : Bool)
  | int (n : Int)
  | float (text : Str)
  | str (s : Str)
  | arr (items : List Json)
  | obj (members : List (Str × Json))

/-- `sorted` on members, by key. -/
def sortMembers {α : Type*} (ms : List (Str × α)) : List (Str × α) :=
  ms.insertionSort fun a b => a.1 ≤ b.1

/-- `d.get(key)` -/
def lookup {α : Type*} (key : Str) : List (Str × α) → Option α
  | [] => none
  | (k, v) :: ms => if k = key then some v else lookup key ms

namespace Json

/-! ### Printing -/

def quote : CodePoint := codePoint 0x22
def backslash : CodePoint := codePoint 0x5C
def lbrace : CodePoint := codePoint 0x7B
def rbrace : CodePoint := codePoint 0x7D
def lbracket : CodePoint := codePoint 0x5B
def rbracket : CodePoint := codePoint 0x5D
def comma : CodePoint := codePoint 0x2C
def colon : CodePoint := codePoint 0x3A
def minus : CodePoint := codePoint 0x2D

/-- `\uXXXX` for a 16-bit unit. -/
def uEscape (n : Nat) : Str :=
  [backslash, chr 'u', hexDigit (n / 4096), hexDigit (n / 256 % 16), hexDigit (n / 16 % 16), hexDigit (n % 16)]

/-- One character inside a JSON string, with `ensure_ascii`. -/
def escapeChar (c : CodePoint) : Str :=
  let n := c.val
  if n = 0x22 then [backslash, quote]
  else if n = 0x5C then [backslash, backslash]
  else if n = 0x08 then [backslash, chr 'b']
  else if n = 0x0C then [backslash, chr 'f']
  else if n = 0x0A then [backslash, chr 'n']
  else if n = 0x0D then [backslash, chr 'r']
  else if n = 0x09 then [backslash, chr 't']
  else if 0x20 ≤ n ∧ n ≤ 0x7E then [c]
  else if n < 0x10000 then uEscape n
  else uEscape (0xD800 + (n - 0x10000) / 1024) ++ uEscape (0xDC00 + (n - 0x10000) % 1024)

def printStr (s : Str) : Str := quote :: s.flatMap escapeChar ++ [quote]

/-- The decimal digits of `n`. -/
def decimal (n : Nat) : Str :=
  if n = 0 then [codePoint 0x30] else (Nat.digits 10 n).reverse.map fun d => codePoint (0x30 + d)

def printInt (n : Int) : Str := if n < 0 then minus :: decimal n.natAbs else decimal n.natAbs

mutual
/-- The text of a value, members in the order they stand. -/
def print : Json → Str
  | null => Wire.str "null"
  | bool true => Wire.str "true"
  | bool false => Wire.str "false"
  | int n => printInt n
  | float text => text
  | str s => printStr s
  | arr items => lbracket :: printItems items
  | obj members => lbrace :: printMembers members
/-- The items of an array and its closing bracket. -/
def printItems : List Json → Str
  | [] => [rbracket]
  | [x] => print x ++ [rbracket]
  | x :: y :: xs => print x ++ comma :: printItems (y :: xs)
/-- The members of an object and its closing brace. -/
def printMembers : List (Str × Json) → Str
  | [] => [rbrace]
  | [(k, v)] => printStr k ++ colon :: (print v ++ [rbrace])
  | (k, v) :: m :: ms => printStr k ++ colon :: (print v ++ comma :: printMembers (m :: ms))
end

mutual
/-- The value with the members of every object in key order. -/
def sortKeys : Json → Json
  | arr items => arr (sortKeysItems items)
  | obj members => obj (sortMembers (sortKeysMembers members))
  | v => v
def sortKeysItems : List Json → List Json
  | [] => []
  | x :: xs => sortKeys x :: sortKeysItems xs
def sortKeysMembers : List (Str × Json) → List (Str × Json)
  | [] => []
  | (k, v) :: ms => (k, sortKeys v) :: sortKeysMembers ms
end

/-- `json.dumps(v, sort_keys=True, separators=(",", ":"))` -/
def dumps (v : Json) : Str := v.sortKeys.print

/-! ### Plain values -/

mutual
/-- No float, every string over scalar values, and the keys of every object distinct. -/
def Plain : Json → Prop
  | null | bool _ | int _ => True
  | float _ => False
  | str s => Scalar s
  | arr items => PlainItems items
  | obj members => (members.map Prod.fst).Nodup ∧ PlainMembers members
def PlainItems : List Json → Prop
  | [] => True
  | x :: xs => Plain x ∧ PlainItems xs
def PlainMembers : List (Str × Json) → Prop
  | [] => True
  | (k, v) :: ms => (Scalar k ∧ Plain v) ∧ PlainMembers ms
end

theorem plainItems_iff {items : List Json} : PlainItems items ↔ ∀ x ∈ items, Plain x := by
  induction items with
  | nil => simp [PlainItems]
  | cons x xs ih => simp [PlainItems, ih]

theorem plainMembers_iff {members : List (Str × Json)} :
    PlainMembers members ↔ ∀ m ∈ members, Scalar m.1 ∧ Plain m.2 := by
  induction members with
  | nil => simp [PlainMembers]
  | cons m ms ih => simp [PlainMembers, ih]

theorem plain_arr_strs {l : List Str} (h : ∀ s ∈ l, Scalar s) : Plain (arr (l.map str)) := by
  rw [Plain, plainItems_iff]
  intro x hx
  obtain ⟨s, hs, rfl⟩ := List.mem_map.mp hx
  exact h s hs

/-! ### Sorting the keys -/

theorem sortKeysItems_eq_map (items : List Json) : sortKeysItems items = items.map sortKeys := by
  induction items with
  | nil => rfl
  | cons x xs ih => rw [sortKeysItems, ih, List.map_cons]

theorem sortKeysMembers_eq_map (members : List (Str × Json)) :
    sortKeysMembers members = members.map fun m => (m.1, sortKeys m.2) := by
  induction members with
  | nil => rfl
  | cons m ms ih => rw [sortKeysMembers, ih, List.map_cons]

theorem sortMembers_perm {α : Type*} (ms : List (Str × α)) : (sortMembers ms).Perm ms :=
  List.perm_insertionSort _ ms

@[simp] theorem sortKeys_str (s : Str) : sortKeys (str s) = str s := rfl

@[simp] theorem sortKeys_int (n : Int) : sortKeys (int n) = int n := rfl

theorem sortKeys_arr_strs (l : List Str) : sortKeys (arr (l.map str)) = arr (l.map str) := by
  simp [sortKeys, sortKeysItems_eq_map, Function.comp_def]

theorem map_fst_sortKeysMembers (members : List (Str × Json)) :
    (sortKeysMembers members).map Prod.fst = members.map Prod.fst := by
  simp [sortKeysMembers_eq_map, Function.comp_def]

mutual
theorem Plain.sortKeys : ∀ {v : Json}, Plain v → Plain v.sortKeys
  | null, h | bool _, h | int _, h | str _, h => h
  | arr _, h => PlainItems.sortKeys h
  | obj ms, h => by
    have hmembers := PlainMembers.sortKeys h.2
    have hperm := sortMembers_perm (sortKeysMembers ms)
    refine ⟨?_, ?_⟩
    · rw [(hperm.map Prod.fst).nodup_iff, map_fst_sortKeysMembers]
      exact h.1
    · rw [plainMembers_iff] at hmembers ⊢
      exact fun m hm => hmembers m (hperm.subset hm)
theorem PlainItems.sortKeys : ∀ {items : List Json}, PlainItems items → PlainItems (sortKeysItems items)
  | [], h => h
  | _ :: _, h => ⟨Plain.sortKeys h.1, PlainItems.sortKeys h.2⟩
theorem PlainMembers.sortKeys :
    ∀ {members : List (Str × Json)}, PlainMembers members → PlainMembers (sortKeysMembers members)
  | [], h => h
  | (_, _) :: _, h => ⟨⟨h.1.1, Plain.sortKeys h.1.2⟩, PlainMembers.sortKeys h.2⟩
end

/-! ### Equality up to the order of members -/

mutual
/-- Python's `==` on JSON values of one kind: objects are compared as `dict`s, so the order of
members does not count at any level. -/
def Same : Json → Json → Prop
  | null, null => True
  | bool a, bool b => a = b
  | int a, int b => a = b
  | float a, float b => a = b
  | str a, str b => a = b
  | arr a, arr b => SameItems a b
  | obj a, obj b => a.length = b.length ∧ SameMembers a b
  | _, _ => False
def SameItems : List Json → List Json → Prop
  | [], [] => True
  | x :: xs, y :: ys => Same x y ∧ SameItems xs ys
  | _, _ => False
/-- Every member on the left has its key on the right, with the same value. -/
def SameMembers : List (Str × Json) → List (Str × Json) → Prop
  | [], _ => True
  | (k, v) :: ms, other => (∃ w, lookup k other = some w ∧ Same v w) ∧ SameMembers ms other
end

theorem lookup_of_mem {α : Type*} {key : Str} {value : α} {ms : List (Str × α)}
    (hnodup : (ms.map Prod.fst).Nodup) (hmem : (key, value) ∈ ms) : lookup key ms = some value := by
  induction ms with
  | nil => simp at hmem
  | cons m ms ih =>
    obtain ⟨k, v⟩ := m
    simp only [List.map_cons, List.nodup_cons] at hnodup
    rcases List.mem_cons.mp hmem with heq | hmem
    · cases heq
      simp [lookup]
    · have hne : k ≠ key := by
        rintro rfl
        exact hnodup.1 (List.mem_map.mpr ⟨_, hmem, rfl⟩)
      rw [lookup, if_neg hne, ih hnodup.2 hmem]

theorem mem_of_lookup {α : Type*} {key : Str} {value : α} {ms : List (Str × α)}
    (h : lookup key ms = some value) : (key, value) ∈ ms := by
  induction ms with
  | nil => simp [lookup] at h
  | cons m ms ih =>
    obtain ⟨k, v⟩ := m
    rw [lookup] at h
    split at h
    · rename_i heq
      cases h
      subst heq
      exact List.mem_cons_self
    · exact List.mem_cons_of_mem _ (ih h)

/-- Looking a key up does not depend on the order of the members. -/
theorem lookup_perm {α : Type*} {ms ms' : List (Str × α)} (hperm : ms.Perm ms')
    (hnodup : (ms.map Prod.fst).Nodup) (key : Str) : lookup key ms = lookup key ms' := by
  have hnodup' : (ms'.map Prod.fst).Nodup := (hperm.map Prod.fst).nodup_iff.mp hnodup
  cases h : lookup key ms with
  | some value => rw [lookup_of_mem hnodup' (hperm.subset (mem_of_lookup h))]
  | none =>
    cases h' : lookup key ms' with
    | none => rfl
    | some value =>
      rw [lookup_of_mem hnodup (hperm.symm.subset (mem_of_lookup h'))] at h
      cases h

theorem lookup_sortKeysMembers (ms : List (Str × Json)) (key : Str) :
    lookup key (sortKeysMembers ms) = (lookup key ms).map sortKeys := by
  induction ms with
  | nil => rfl
  | cons m ms ih =>
    obtain ⟨k, v⟩ := m
    rw [sortKeysMembers, lookup, lookup, ih]
    split <;> rfl

/-- Sorting the keys keeps every member. -/
theorem lookup_sortMembers {ms : List (Str × Json)} (hnodup : (ms.map Prod.fst).Nodup) (key : Str) :
    lookup key (sortMembers (sortKeysMembers ms)) = (lookup key ms).map sortKeys := by
  rw [← lookup_sortKeysMembers]
  refine (lookup_perm (sortMembers_perm _).symm ?_ key).symm
  rwa [map_fst_sortKeysMembers]

/-- Sorting by key erases the order of members with distinct keys. -/
theorem sortMembers_eq_of_perm {α : Type*} {ms ms' : List (Str × α)} (h : ms.Perm ms')
    (hnodup : (ms.map Prod.fst).Nodup) : sortMembers ms = sortMembers ms' :=
  insertionSort_eq_of_perm Prod.fst h fun _ ha _ hb hkey => List.inj_on_of_nodup_map hnodup ha hb hkey

theorem lookup_eq_of_sortKeys_eq {ms ms' : List (Str × Json)} (hnodup : (ms.map Prod.fst).Nodup)
    (hnodup' : (ms'.map Prod.fst).Nodup) (h : sortKeys (obj ms) = sortKeys (obj ms')) (key : Str) :
    (lookup key ms).map sortKeys = (lookup key ms').map sortKeys := by
  rw [← lookup_sortMembers hnodup, ← lookup_sortMembers hnodup', Json.obj.inj h]

theorem sameMembers_iff {members other : List (Str × Json)} :
    SameMembers members other ↔ ∀ m ∈ members, ∃ w, lookup m.1 other = some w ∧ Same m.2 w := by
  induction members with
  | nil => simp [SameMembers]
  | cons m ms ih => simp [SameMembers, ih]

mutual
/-- Sorting the keys changes nothing but the order of members. -/
theorem same_sortKeys : ∀ {v : Json}, Plain v → Same v.sortKeys v
  | null, _ => trivial
  | bool _, _ | int _, _ | str _, _ => rfl
  | arr _, h => sameItems_sortKeys h
  | obj ms, h => by
    have hperm := sortMembers_perm (sortKeysMembers ms)
    refine ⟨?_, ?_⟩
    · rw [hperm.length_eq, sortKeysMembers_eq_map, List.length_map]
    · rw [sameMembers_iff]
      intro m hm
      have hmem := hperm.subset hm
      rw [sortKeysMembers_eq_map] at hmem
      obtain ⟨m', hm', rfl⟩ := List.mem_map.mp hmem
      exact ⟨m'.2, lookup_of_mem h.1 hm', samePlainMembers_sortKeys h.2 m' hm'⟩
theorem sameItems_sortKeys :
    ∀ {items : List Json}, PlainItems items → SameItems (sortKeysItems items) items
  | [], _ => trivial
  | _ :: _, h => ⟨same_sortKeys h.1, sameItems_sortKeys h.2⟩
theorem samePlainMembers_sortKeys :
    ∀ {members : List (Str × Json)}, PlainMembers members → ∀ m ∈ members, Same m.2.sortKeys m.2
  | [], _ => by simp
  | (_, v) :: ms, h => by
    intro m hm
    rcases List.mem_cons.mp hm with rfl | hm
    · exact same_sortKeys h.1.2
    · exact samePlainMembers_sortKeys h.2 m hm
end

/-- Two objects are the same exactly when sorting their keys makes them equal, if that is so of the values in one. -/
theorem same_obj_iff {ms ms' : List (Str × Json)} (h : Plain (obj ms)) (h' : Plain (obj ms'))
    (hvalues : ∀ m ∈ ms, ∀ w, Plain w → (Same m.2 w ↔ m.2.sortKeys = w.sortKeys)) :
    Same (obj ms) (obj ms') ↔ (obj ms).sortKeys = (obj ms').sortKeys := by
  have hplain := plainMembers_iff.mp h'.2
  constructor
  · rintro ⟨hlen, hmembers⟩
    have hsub : sortKeysMembers ms ⊆ sortKeysMembers ms' := by
      intro m hm
      rw [sortKeysMembers_eq_map] at hm
      obtain ⟨m', hm', rfl⟩ := List.mem_map.mp hm
      obtain ⟨w, hw, hsame⟩ := sameMembers_iff.mp hmembers m' hm'
      have hmem := mem_of_lookup hw
      rw [(hvalues m' hm' w (hplain _ hmem).2).mp hsame, sortKeysMembers_eq_map]
      exact List.mem_map.mpr ⟨_, hmem, rfl⟩
    have hnodup : ((sortKeysMembers ms).map Prod.fst).Nodup := by
      rw [map_fst_sortKeysMembers]
      exact h.1
    have hlength : (sortKeysMembers ms').length ≤ (sortKeysMembers ms).length := by
      rw [sortKeysMembers_eq_map, sortKeysMembers_eq_map, List.length_map, List.length_map, hlen]
    have hperm : (sortKeysMembers ms).Perm (sortKeysMembers ms') :=
      (List.subperm_of_subset (.of_map _ hnodup) hsub).perm_of_length_le hlength
    rw [sortKeys, sortKeys, sortMembers_eq_of_perm hperm hnodup]
  · intro heq
    constructor
    · have hlength := congrArg List.length (Json.obj.inj heq)
      rwa [(sortMembers_perm _).length_eq, (sortMembers_perm _).length_eq, sortKeysMembers_eq_map,
        sortKeysMembers_eq_map, List.length_map, List.length_map] at hlength
    · rw [sameMembers_iff]
      intro m hm
      have hlookup := lookup_eq_of_sortKeys_eq h.1 h'.1 heq m.1
      rw [lookup_of_mem h.1 hm] at hlookup
      obtain ⟨w, hw, hkeys⟩ := Option.map_eq_some_iff.mp hlookup.symm
      exact ⟨w, hw, (hvalues m hm w (hplain _ (mem_of_lookup hw)).2).mpr hkeys.symm⟩

mutual
/-- The sorted form of a value is a complete invariant of the value up to the order of members. -/
theorem same_iff_sortKeys_eq : ∀ {v w : Json}, Plain v → Plain w → (Same v w ↔ v.sortKeys = w.sortKeys)
  | null, w, _, _ | bool _, w, _, _ | int _, w, _, _ | str _, w, _, _ => by
    cases w <;> simp [Same, sortKeys]
  | arr _, w, h, h' => by
    cases w with
    | arr items => exact (sameItems_iff_sortKeysItems_eq h h').trans (by simp [sortKeys])
    | _ => simp [Same, sortKeys]
  | obj _, w, h, h' => by
    cases w with
    | obj members => exact same_obj_iff h h' (sameValue_iff_sortKeys_eq h.2)
    | _ => simp [Same, sortKeys]
theorem sameItems_iff_sortKeysItems_eq :
    ∀ {xs ys : List Json}, PlainItems xs → PlainItems ys → (SameItems xs ys ↔ sortKeysItems xs = sortKeysItems ys)
  | [], [], _, _ => by simp [SameItems]
  | [], _ :: _, _, _ | _ :: _, [], _, _ => by simp [SameItems, sortKeysItems]
  | _ :: _, _ :: _, h, h' => by
    rw [SameItems, sortKeysItems, sortKeysItems, List.cons.injEq, same_iff_sortKeys_eq h.1 h'.1,
      sameItems_iff_sortKeysItems_eq h.2 h'.2]
theorem sameValue_iff_sortKeys_eq : ∀ {members : List (Str × Json)}, PlainMembers members →
    ∀ m ∈ members, ∀ w, Plain w → (Same m.2 w ↔ m.2.sortKeys = w.sortKeys)
  | [], _ => by simp
  | (_, _) :: _, h => by
    intro m hm w hw
    rcases List.mem_cons.mp hm with rfl | hm
    · exact same_iff_sortKeys_eq h.1.2 hw
    · exact sameValue_iff_sortKeys_eq h.2 m hm w hw
end

end Json

end Wire
