import SkPqc.Wire.Bytes

/-!
# Offset-driven scanners

A generator that walks a buffer of `n` bytes by offset: at each offset below `n` it reads an item and
the next offset, or fails, and it stops at `n`. `scan` runs it to its end and keeps the items yielded
and the failure, if there was one. The step has to move forward, so `n` steps are enough fuel.

A packed format needs one fact: the step reads one packed item wherever it stands (`ReadsPacked`). Then
the scanner reads a concatenation of packed items as the list of them, and whatever comes after it ends the
scan or stops it with a failure (`scan_append`); if the step fails wherever no item stands, every buffer is of
that form (`exists_packed`). Where each packed item belongs to an element of another list, `find?_of_forall₂`
carries a search from one list to the other.

`Walk` is the loop itself, without fuel. A step that advances has exactly one walk from each offset, and `scan`
is what it yields (`exists_walk`, `Walk.unique`); the spans that a walk reads stand end to end in the buffer
(`Walk.consecutive`, `Walk.flatten_bytes`).
-/

namespace Wire

/-- The items a scanner yields from `off` on, and the failure that stops it before `n`, if any. -/
def scan {α ε : Type*} (next : Nat → Except ε (α × Nat)) (n : Nat) : (fuel : Nat) → (off : Nat) → List α × Option ε
  | 0, _ => ([], none)
  | fuel + 1, off =>
    if off < n then
      match next off with
      | .error e => ([], some e)
      | .ok (a, off) =>
        let rest := scan next n fuel off
        (a :: rest.1, rest.2)
    else ([], none)

section Packed
variable {α β ε : Type*} (next : Bytes → Nat → Except ε (α × Nat)) (pack : β → Bytes) (value : β → α)

/-- The step reads the packed form of `b` wherever it stands in a buffer. -/
def ReadsPacked (b : β) : Prop :=
  pack b ≠ [] ∧ ∀ before after : Bytes,
    next (before ++ (pack b ++ after)) before.length = .ok (value b, before.length + (pack b).length)

/-- A scanner that comes to the bytes `tail` at the end of a buffer ends there, or stops with a failure. -/
inductive Stops (tail : Bytes) : Option ε → Prop where
  | ended (h : tail = []) : Stops tail none
  | failed {e : ε} (hne : tail ≠ []) (h : ∀ before : Bytes, next (before ++ tail) before.length = .error e) :
      Stops tail (some e)

theorem scan_packed {items : List β} (h : ∀ b ∈ items, ReadsPacked next pack value b) {tail : Bytes}
    {stop : Option ε} (htail : Stops next tail stop) (before : Bytes) :
    ∀ fuel, (items.flatMap pack ++ tail).length ≤ fuel →
      scan (next (before ++ (items.flatMap pack ++ tail))) (before ++ (items.flatMap pack ++ tail)).length fuel
        before.length = (items.map value, stop) := by
  induction items generalizing before with
  | nil =>
    intro fuel hfuel
    rw [List.flatMap_nil, List.nil_append] at hfuel ⊢
    cases htail with
    | ended htail =>
      subst htail
      cases fuel <;> simp [scan]
    | failed hne hnext =>
      have hpos : 0 < tail.length := List.length_pos_iff.mpr hne
      obtain ⟨fuel, rfl⟩ := Nat.exists_eq_add_of_lt (show 0 < fuel by omega)
      rw [scan, if_pos (by simp only [List.length_append]; omega), hnext]
      rfl
  | cons b items ih =>
    intro fuel hfuel
    obtain ⟨hne, hnext⟩ := h b List.mem_cons_self
    have hpos : 0 < (pack b).length := List.length_pos_iff.mpr hne
    simp only [List.flatMap_cons, List.length_append] at hfuel
    obtain ⟨fuel, rfl⟩ := Nat.exists_eq_add_of_lt (show 0 < fuel by omega)
    have hrest := ih (fun b hb => h b (List.mem_cons_of_mem _ hb)) (before ++ pack b) (0 + fuel)
      (by simp only [List.length_append]; omega)
    simp only [List.append_assoc, List.length_append] at hrest
    rw [List.flatMap_cons, List.append_assoc, scan, if_pos (by simp only [List.length_append]; omega), hnext]
    simp only [List.length_append, hrest, List.map_cons]

/-- Scanning a concatenation of packed items and a tail yields the items, and stops as the tail does. -/
theorem scan_append {items : List β} (h : ∀ b ∈ items, ReadsPacked next pack value b) {tail : Bytes}
    {stop : Option ε} (htail : Stops next tail stop) :
    scan (next (items.flatMap pack ++ tail)) (items.flatMap pack ++ tail).length (items.flatMap pack ++ tail).length 0
      = (items.map value, stop) :=
  scan_packed next pack value h htail [] _ le_rfl

/-- Scanning a concatenation of packed items yields the items, without failure. -/
theorem scan_flatMap {items : List β} (h : ∀ b ∈ items, ReadsPacked next pack value b) :
    scan (next (items.flatMap pack)) (items.flatMap pack).length (items.flatMap pack).length 0
      = (items.map value, none) := by
  have hscan := scan_append next pack value h (.ended rfl)
  rwa [List.append_nil] at hscan

/-- Where every buffer starts with a packed item or stops the scanner, every buffer is packed items and a tail. -/
theorem exists_packed (hne : ∀ b, pack b ≠ [])
    (hcut : ∀ region : Bytes, (∃ b rest, region = pack b ++ rest) ∨ ∃ stop, Stops next region stop) (region : Bytes) :
    ∃ (items : List β) (tail : Bytes) (stop : Option ε),
      region = items.flatMap pack ++ tail ∧ Stops next tail stop := by
  induction hlen : region.length using Nat.strong_induction_on generalizing region with
  | _ n ih =>
    rcases hcut region with ⟨b, rest, rfl⟩ | ⟨stop, hstop⟩
    · have hpos : 0 < (pack b).length := List.length_pos_iff.mpr (hne b)
      rw [List.length_append] at hlen
      obtain ⟨items, tail, stop, rfl, hstop⟩ := ih rest.length (by omega) rest rfl
      exact ⟨b :: items, tail, stop, by rw [List.flatMap_cons, List.append_assoc], hstop⟩
    · exact ⟨[], region, stop, rfl, hstop⟩

end Packed

/-! ### Walks -/

/-- An item and where it was read: from `start`, up to the offset `stop` that the step moved to. -/
structure Span (α : Type*) where
  start : Nat
  stop : Nat
  item : α

/-- The bytes of a buffer in a span. -/
def Span.bytes {α : Type*} (buffer : Bytes) (s : Span α) : Bytes := slice buffer s.start s.stop

section Walks
variable {α ε : Type*} (next : Nat → Except ε (α × Nat)) (n : Nat)

/-- The loop from an offset on: the spans it reads, the offset it comes to, and the failure that stops it there, if
one does. A loop that goes on forever has no walk. -/
inductive Walk : (off : Nat) → List (Span α) → (fin : Nat) → Option ε → Prop where
  | ended {off : Nat} (h : n ≤ off) : Walk off [] off none
  | failed {off : Nat} {e : ε} (h : off < n) (hnext : next off = .error e) : Walk off [] off (some e)
  | step {off off' fin : Nat} {a : α} {spans : List (Span α)} {stop : Option ε} (h : off < n)
      (hnext : next off = .ok (a, off')) (hrest : Walk off' spans fin stop) :
      Walk off (⟨off, off', a⟩ :: spans) fin stop

/-- The step moves forward, and not out of the buffer. -/
def Advances : Prop := ∀ off < n, ∀ a off', next off = .ok (a, off') → off < off' ∧ off' ≤ n

variable {next n} {off fin : Nat} {spans : List (Span α)} {stop : Option ε}

/-- The loop comes to its end from every offset, and the scanner yields what it reads. -/
theorem exists_walk (hadv : Advances next n) (fuel : Nat) (hfuel : n ≤ off + fuel) : ∃ spans fin,
    Walk next n off spans fin (scan next n fuel off).2 ∧ (scan next n fuel off).1 = spans.map Span.item := by
  induction fuel generalizing off with
  | zero => exact ⟨[], off, .ended hfuel, rfl⟩
  | succ fuel ih =>
    rw [scan]
    by_cases hoff : off < n
    · rw [if_pos hoff]
      cases hnext : next off with
      | error e => exact ⟨[], off, .failed hoff hnext, rfl⟩
      | ok read =>
        obtain ⟨a, off'⟩ := read
        have hforward := (hadv off hoff a off' hnext).1
        have hfuel' : n ≤ off' + fuel := by omega
        obtain ⟨spans, fin, hwalk, hitems⟩ := ih hfuel'
        exact ⟨_, fin, .step hoff hnext hwalk, congrArg (a :: ·) hitems⟩
    · rw [if_neg hoff]
      exact ⟨[], off, .ended (by omega), rfl⟩

theorem Walk.unique {spans' : List (Span α)} {fin' : Nat} {stop' : Option ε} (h : Walk next n off spans fin stop)
    (h' : Walk next n off spans' fin' stop') : spans = spans' ∧ fin = fin' ∧ stop = stop' := by
  induction h generalizing spans' fin' stop' with
  | ended hoff =>
    cases h' with
    | ended => exact ⟨rfl, rfl, rfl⟩
    | failed hoff' | step hoff' => omega
  | failed hoff hnext =>
    cases h' with
    | ended hoff' => omega
    | failed _ hnext' =>
      cases hnext.symm.trans hnext'
      exact ⟨rfl, rfl, rfl⟩
    | step _ hnext' => cases hnext.symm.trans hnext'
  | step hoff hnext _ ih =>
    cases h' with
    | ended hoff' => omega
    | failed _ hnext' => cases hnext.symm.trans hnext'
    | step _ hnext' hrest' =>
      cases hnext.symm.trans hnext'
      obtain ⟨rfl, rfl, rfl⟩ := ih hrest'
      exact ⟨rfl, rfl, rfl⟩

/-- What a walk yields is what the scanner yields. -/
theorem Walk.scan_eq (hadv : Advances next n) (h : Walk next n off spans fin stop) (fuel : Nat)
    (hfuel : n ≤ off + fuel) : scan next n fuel off = (spans.map Span.item, stop) := by
  obtain ⟨spans', fin', hwalk, hitems⟩ := exists_walk hadv fuel hfuel
  obtain ⟨rfl, rfl, rfl⟩ := h.unique hwalk
  exact Prod.ext hitems rfl

/-- Each span begins where the one before it ends. -/
theorem Walk.consecutive (h : Walk next n off spans fin stop) :
    off :: spans.map Span.stop = spans.map Span.start ++ [fin] := by
  induction h with
  | ended | failed => rfl
  | step _ _ _ ih => rw [List.map_cons, List.map_cons, List.cons_append, ih]

theorem Walk.exists_step (h : Walk next n off spans fin stop) {s : Span α} (hs : s ∈ spans) :
    s.start < n ∧ next s.start = .ok (s.item, s.stop) := by
  induction h with
  | ended | failed => cases hs
  | step hoff hnext _ ih =>
    rcases List.mem_cons.mp hs with rfl | hs
    · exact ⟨hoff, hnext⟩
    · exact ih hs

theorem Walk.exists_failure {e : ε} (h : Walk next n off spans fin (some e)) : fin < n ∧ next fin = .error e := by
  generalize hstop : some e = stop at h
  induction h with
  | ended => cases hstop
  | failed hoff hnext =>
    cases hstop
    exact ⟨hoff, hnext⟩
  | step _ _ _ ih => exact ih hstop

theorem Walk.bounds (hadv : Advances next n) (hoff : off ≤ n) (h : Walk next n off spans fin stop) :
    off ≤ fin ∧ fin ≤ n := by
  induction h with
  | ended | failed => exact ⟨le_rfl, hoff⟩
  | step hlt hnext _ ih =>
    obtain ⟨hforward, hinside⟩ := hadv _ hlt _ _ hnext
    have hrest := ih hinside
    omega

/-- The spans of a walk, put together, are the buffer from where it began to where it came. -/
theorem Walk.flatten_bytes (buffer : Bytes) (hadv : Advances next n) (hoff : off ≤ n)
    (h : Walk next n off spans fin stop) : (spans.map (Span.bytes buffer)).flatten = slice buffer off fin := by
  induction h with
  | ended | failed => simp [slice]
  | step hlt hnext hrest ih =>
    obtain ⟨hforward, hinside⟩ := hadv _ hlt _ _ hnext
    rw [List.map_cons, List.flatten_cons, ih hinside, Span.bytes]
    exact slice_append_slice _ hforward.le (hrest.bounds hadv hinside).1

theorem Walk.le_start (hadv : Advances next n) (h : Walk next n off spans fin stop) {s : Span α} (hs : s ∈ spans) :
    off ≤ s.start := by
  induction h with
  | ended | failed => cases hs
  | step hlt hnext _ ih =>
    have hforward := (hadv _ hlt _ _ hnext).1
    rcases List.mem_cons.mp hs with rfl | hs
    · exact le_rfl
    · exact hforward.le.trans (ih hs)

/-- No span of a walk reaches into a later one. -/
theorem Walk.pairwise (hadv : Advances next n) (h : Walk next n off spans fin stop) :
    spans.Pairwise fun s t => s.stop ≤ t.start := by
  induction h with
  | ended | failed => exact .nil
  | step _ _ hrest ih => exact .cons (fun _ ht => hrest.le_start hadv ht) ih

end Walks

/-! ### First matches in related lists -/

theorem find?_of_forall₂ {α β : Type*} {R : α → β → Prop} {p : α → Bool} {q : β → Bool} {as : List α} {bs : List β}
    (h : List.Forall₂ R as bs) (hpq : ∀ a b, R a b → p a = q b) : Option.Rel R (as.find? p) (bs.find? q) := by
  induction h with
  | nil => exact .none
  | @cons a b as bs hab _ ih =>
    have heq := hpq a b hab
    by_cases hp : p a = true
    · rw [List.find?_cons_of_pos hp, List.find?_cons_of_pos (heq ▸ hp)]
      exact .some hab
    · rw [List.find?_cons_of_neg hp, List.find?_cons_of_neg (heq ▸ hp)]
      exact ih

theorem rel_some_left {α β : Type*} {R : α → β → Prop} {a : α} {o : Option β} (h : Option.Rel R (some a) o) :
    ∃ b, o = some b ∧ R a b := by
  cases h with
  | some hab => exact ⟨_, rfl, hab⟩

theorem rel_some_right {α β : Type*} {R : α → β → Prop} {b : β} {o : Option α} (h : Option.Rel R o (some b)) :
    ∃ a, o = some a ∧ R a b := by
  cases h with
  | some hab => exact ⟨_, rfl, hab⟩

end Wire
