import Mathlib.Data.List.Basic
import Mathlib.Data.List.Induction
import Mathlib.Data.Nat.Digits.Defs
import Mathlib.Tactic.Ring

/-!
# Byte strings

Python's `bytes` as lists of `UInt8`, byte strings of a fixed length, big-endian words
(`struct.pack(">I", n)` and `struct.pack(">Q", n)`), and the facts about cutting a concatenation
back into its parts that every fixed-offset wire format needs.
-/

namespace Wire

/-- A Python `bytes` value. -/
abbrev Bytes := List UInt8

/-- A byte string whose length is fixed by its type. -/
@[ext] structure BytesN (n : Nat) where
  val : Bytes
  length_val : val.length = n
  deriving DecidableEq

attribute [simp] BytesN.length_val

instance (n : Nat) : CoeOut (BytesN n) Bytes := ⟨BytesN.val⟩

/-- `bytes(n)`: `n` zero bytes. -/
def BytesN.zero (n : Nat) : BytesN n := ⟨List.replicate n 0, by simp⟩

namespace BytesN

def append {m n : Nat} (a : BytesN m) (b : BytesN n) : BytesN (m + n) := ⟨a.val ++ b.val, by simp⟩

/-- `b[:m]` -/
def left {m n : Nat} (b : BytesN (m + n)) : BytesN m := ⟨b.val.take m, by simp⟩

/-- `b[m:]` -/
def right {m n : Nat} (b : BytesN (m + n)) : BytesN n := ⟨b.val.drop m, by simp⟩

@[simp] theorem val_append {m n : Nat} (a : BytesN m) (b : BytesN n) : (a.append b).val = a.val ++ b.val := rfl

@[simp] theorem left_append {m n : Nat} (a : BytesN m) (b : BytesN n) : (a.append b).left = a :=
  BytesN.ext (List.take_left' a.length_val)

@[simp] theorem right_append {m n : Nat} (a : BytesN m) (b : BytesN n) : (a.append b).right = b :=
  BytesN.ext (List.drop_left' a.length_val)

@[simp] theorem append_left_right {m n : Nat} (b : BytesN (m + n)) : b.left.append b.right = b :=
  BytesN.ext (List.take_append_drop m b.val)

end BytesN

/-- The literal `b"..."` for ASCII text. -/
def ascii (s : String) : Bytes := s.toList.map fun c => UInt8.ofNat c.toNat

/-! ### Cutting a concatenation -/

/-- `b[i:j]` -/
def slice (b : Bytes) (i j : Nat) : Bytes := (b.take j).drop i

theorem slice_append_append {a b c : Bytes} {i j : Nat} (hi : a.length = i) (hj : a.length + b.length = j) :
    slice (a ++ b ++ c) i j = b := by
  subst hi hj
  rw [slice, List.take_left' (by simp), List.drop_left]

theorem take_append_slice (b : Bytes) {i j : Nat} (h : i ≤ j) : b.take i ++ slice b i j = b.take j := by
  have hfront : (b.take j).take i = b.take i := by rw [List.take_take, Nat.min_eq_left h]
  rw [slice, ← hfront, List.take_append_drop]

theorem slice_append_slice (b : Bytes) {i j k : Nat} (hij : i ≤ j) (hjk : j ≤ k) :
    slice b i j ++ slice b j k = slice b i k := by
  have hfront : b.take i ++ (slice b i j ++ slice b j k) = b.take i ++ slice b i k := by
    rw [← List.append_assoc, take_append_slice b hij, take_append_slice b hjk, take_append_slice b (hij.trans hjk)]
  exact List.append_cancel_left hfront

theorem length_slice {b : Bytes} {j : Nat} (i : Nat) (h : j ≤ b.length) : (slice b i j).length = j - i := by
  rw [slice, List.length_drop, List.length_take_of_le h]

theorem take_append_append {a b c : Bytes} {i : Nat} (hi : a.length = i) : (a ++ b ++ c).take i = a := by
  rw [List.append_assoc, List.take_left' hi]

theorem drop_append_append {a b c : Bytes} {j : Nat} (hj : a.length + b.length = j) : (a ++ b ++ c).drop j = c :=
  List.drop_left' (by rw [List.length_append, hj])

/-! ### Big-endian words -/

/-- The low `width` bytes of `n`, most significant first. -/
def beBytes : (width : Nat) → Nat → Bytes
  | 0, _ => []
  | width + 1, n => beBytes width (n / 256) ++ [UInt8.ofNat (n % 256)]

/-- The number a big-endian byte string stands for. -/
def ofBe (b : Bytes) : Nat := b.foldl (fun acc x => acc * 256 + x.toNat) 0

@[simp] theorem length_beBytes (width n : Nat) : (beBytes width n).length = width := by
  induction width generalizing n with
  | zero => rfl
  | succ width ih => simp [beBytes, ih]

theorem ofBe_beBytes (width n : Nat) : ofBe (beBytes width n) = n % 256 ^ width := by
  induction width generalizing n with
  | zero => simp [beBytes, ofBe, Nat.mod_one]
  | succ width ih =>
    have hstep : ofBe (beBytes width (n / 256) ++ [UInt8.ofNat (n % 256)])
        = ofBe (beBytes width (n / 256)) * 256 + n % 256 := by
      simp [ofBe, List.foldl_append]
    rw [beBytes, hstep, ih, pow_succ, Nat.mul_comm (256 ^ width), Nat.mod_mul]
    omega

theorem ofBe_append_singleton (b : Bytes) (x : UInt8) : ofBe (b ++ [x]) = ofBe b * 256 + x.toNat := by
  simp [ofBe, List.foldl_append]

theorem beBytes_ofBe (b : Bytes) : beBytes b.length (ofBe b) = b := by
  induction b using List.reverseRecOn with
  | nil => rfl
  | append_singleton b x ih =>
    have hx := x.toNat_lt
    have hdiv : (ofBe b * 256 + x.toNat) / 256 = ofBe b := by omega
    have hmod : (ofBe b * 256 + x.toNat) % 256 = x.toNat := by omega
    rw [ofBe_append_singleton, List.length_append, List.length_singleton, beBytes, hdiv, hmod, ih, UInt8.ofNat_toNat]

theorem ofBe_lt (b : Bytes) : ofBe b < 256 ^ b.length := by
  have h := ofBe_beBytes b.length (ofBe b)
  rw [beBytes_ofBe] at h
  rw [h]
  exact Nat.mod_lt _ (Nat.pow_pos (by decide))

/-- `struct.pack(">I", n)`, which raises `struct.error` when `n` does not fit in 32 bits. -/
def packU32 (n : Nat) : Option Bytes := if n < 2 ^ 32 then some (beBytes 4 n) else none

/-- `struct.unpack(">I", b)` on four bytes. -/
def unpackU32 (b : Bytes) : Nat := ofBe b

theorem unpackU32_beBytes {n : Nat} (h : n < 2 ^ 32) : unpackU32 (beBytes 4 n) = n := by
  rw [unpackU32, ofBe_beBytes]
  exact Nat.mod_eq_of_lt (by omega)

theorem packU32_unpackU32 {b : Bytes} (h : b.length = 4) : packU32 (unpackU32 b) = some b := by
  have hlt := ofBe_lt b
  have hback := beBytes_ofBe b
  rw [h] at hlt hback
  rw [packU32, unpackU32, if_pos (by omega), hback]

/-- `struct.pack(">Q", n & 0xFFFFFFFFFFFFFFFF)` for any Python integer `n`. -/
def packU64 (n : Int) : Bytes := beBytes 8 (n % 2 ^ 64).toNat

@[simp] theorem length_packU64 (n : Int) : (packU64 n).length = 8 := length_beBytes ..

/-- Two integers pack to the same eight bytes exactly when they agree modulo `2 ^ 64`. -/
theorem packU64_inj {m n : Int} : packU64 m = packU64 n ↔ m % 2 ^ 64 = n % 2 ^ 64 := by
  constructor
  · intro h
    have hvalue := congrArg ofBe h
    rw [packU64, packU64, ofBe_beBytes, ofBe_beBytes] at hvalue
    omega
  · intro h
    rw [packU64, packU64, h]

end Wire
