import SkPqc.Wire.Bytes

/-!
# X25519 (RFC 7748, section 5)

The function itself, with its Montgomery ladder. Of the 32 bytes of a public value only the number
`decodeUCoordinate` counts: the most significant bit is masked and the rest is read modulo `p`, so
several byte strings are the same public value. `x25519_congr` says so, and `setTopBit` is the
simplest way to meet it.
-/

namespace Wire
namespace Rfc7748

/-! ### Little-endian numbers -/

/-- The number a little-endian byte string stands for. -/
def leNat (b : Bytes) : Nat := b.foldr (fun x acc => x.toNat + 256 * acc) 0

/-- The low `width` bytes of `n`, least significant first. -/
def leBytes : (width : Nat) → Nat → Bytes
  | 0, _ => []
  | width + 1, n => UInt8.ofNat (n % 256) :: leBytes width (n / 256)

@[simp] theorem length_leBytes (width n : Nat) : (leBytes width n).length = width := by
  induction width generalizing n with
  | zero => rfl
  | succ width ih => simp [leBytes, ih]

theorem leNat_leBytes (width n : Nat) : leNat (leBytes width n) = n % 256 ^ width := by
  induction width generalizing n with
  | zero => simp [leBytes, leNat, Nat.mod_one]
  | succ width ih =>
    have hstep : leNat (leBytes (width + 1) n) = n % 256 + 256 * leNat (leBytes width (n / 256)) := by
      simp [leBytes, leNat]
    rw [hstep, ih, pow_succ, Nat.mul_comm (256 ^ width), Nat.mod_mul]

/-! ### The function -/

def p : Nat := 2 ^ 255 - 19

/-- `decodeUCoordinate`: the top bit is masked, the rest reduced. -/
def decodeUCoordinate (u : BytesN 32) : Nat := leNat u.val % 2 ^ 255 % p

def encodeUCoordinate (n : Nat) : BytesN 32 := ⟨leBytes 32 (n % p), by simp⟩

/-- `decodeScalar25519` -/
def decodeScalar (k : BytesN 32) : Nat := 2 ^ 254 + leNat k.val % 2 ^ 254 / 8 * 8

structure Ladder where
  x₂ : Nat
  z₂ : Nat
  x₃ : Nat
  z₃ : Nat

def Ladder.swap (s : Ladder) (bit : Bool) : Ladder := if bit then ⟨s.x₃, s.z₃, s.x₂, s.z₂⟩ else s

def sub (a b : Nat) : Nat := (a + (p - b % p)) % p

/-- One round of the ladder for one bit of the scalar. -/
def Ladder.step (x₁ : Nat) (bit : Bool) (s : Ladder) : Ladder :=
  let s := s.swap bit
  let a := (s.x₂ + s.z₂) % p
  let aa := a * a % p
  let b := sub s.x₂ s.z₂
  let bb := b * b % p
  let e := sub aa bb
  let c := (s.x₃ + s.z₃) % p
  let d := sub s.x₃ s.z₃
  let da := d * a % p
  let cb := c * b % p
  let sum := (da + cb) % p
  let diff := sub da cb
  Ladder.swap ⟨aa * bb % p, e * ((aa + 121665 * e) % p) % p, sum * sum % p, x₁ * (diff * diff % p) % p⟩ bit

/-- The rounds for the bits of `k` below `bits`, most significant first. -/
def Ladder.run (x₁ k : Nat) : (bits : Nat) → Ladder → Ladder
  | 0, s => s
  | bits + 1, s => Ladder.run x₁ k bits (s.step x₁ (k.testBit bits))

/-- `a ^ n` modulo `p`, for `n` of the given number of bits. -/
def powMod (a n : Nat) : (bits : Nat) → Nat → Nat
  | 0, acc => acc
  | bits + 1, acc => powMod a n bits (if n.testBit bits then acc * acc % p * a % p else acc * acc % p)

/-- The u-coordinate of the scalar multiple. -/
def scalarMult (k u : Nat) : Nat :=
  let s := Ladder.run u k 255 ⟨1, 0, u, 1⟩
  s.x₂ * powMod s.z₂ (p - 2) 255 1 % p

/-- `X25519(k, u)` -/
@[irreducible] def x25519 (k u : BytesN 32) : BytesN 32 :=
  encodeUCoordinate (scalarMult (decodeScalar k) (decodeUCoordinate u))

/-- The public key of a private key: the base point has u-coordinate 9. -/
@[irreducible] def publicKey (k : BytesN 32) : BytesN 32 := encodeUCoordinate (scalarMult (decodeScalar k) 9)

/-! ### Equivalent public values -/

theorem x25519_congr {u u' : BytesN 32} (h : decodeUCoordinate u = decodeUCoordinate u') (k : BytesN 32) :
    x25519 k u = x25519 k u' := by
  rw [x25519, x25519, h]

theorem decodeUCoordinate_encodeUCoordinate (n : Nat) : decodeUCoordinate (encodeUCoordinate n) = n % p := by
  have hlt : n % p < p := Nat.mod_lt n (by decide)
  have hp : p < 2 ^ 255 := by decide
  rw [decodeUCoordinate, encodeUCoordinate, leNat_leBytes, Nat.mod_eq_of_lt (a := n % p) (by omega),
    Nat.mod_eq_of_lt (a := n % p) (by omega), Nat.mod_mod]

/-- The most significant bit of the last byte, flipped. -/
def flipTopBit (u : BytesN 32) : BytesN 32 :=
  ⟨u.val.take 31 ++ [u.val.getD 31 0 + 0x80], by simp⟩

theorem leNat_append (a b : Bytes) : leNat (a ++ b) = leNat a + 256 ^ a.length * leNat b := by
  induction a with
  | nil => simp [leNat]
  | cons x a ih =>
    have hcons : ∀ y : Bytes, leNat (x :: y) = x.toNat + 256 * leNat y := fun _ => rfl
    rw [List.cons_append, hcons, hcons, ih, List.length_cons, pow_succ]
    ring

theorem val_eq_take_append (u : BytesN 32) : u.val = u.val.take 31 ++ [u.val.getD 31 0] := by
  have hdrop : u.val.drop 31 = [u.val.getD 31 0] := by
    obtain ⟨x, hx⟩ := List.length_eq_one_iff.mp (show (u.val.drop 31).length = 1 by simp)
    have hget : u.val.getD 31 0 = (u.val.drop 31).getD 0 0 := by simp [List.getD_eq_getElem?_getD]
    rw [hget, hx]
    rfl
  conv_lhs => rw [← List.take_append_drop 31 u.val, hdrop]

theorem decodeUCoordinate_flipTopBit (u : BytesN 32) :
    decodeUCoordinate (flipTopBit u) = decodeUCoordinate u := by
  have hlast : ∀ x y : UInt8, x.toNat % 128 = y.toNat % 128 →
      leNat (u.val.take 31 ++ [x]) % 2 ^ 255 = leNat (u.val.take 31 ++ [y]) % 2 ^ 255 := by
    intro x y hxy
    have hone : ∀ z : UInt8, leNat [z] = z.toNat := fun z => by simp [leNat]
    have hlen : (u.val.take 31).length = 31 := by simp
    rw [leNat_append, leNat_append, hone, hone, hlen]
    omega
  have hflip : (u.val.getD 31 0 + 0x80).toNat % 128 = (u.val.getD 31 0).toNat % 128 := by
    rw [UInt8.toNat_add]
    have hconst : (0x80 : UInt8).toNat = 128 := rfl
    omega
  conv_rhs => rw [decodeUCoordinate, val_eq_take_append u]
  exact congrArg (· % p) (hlast _ _ hflip)

theorem flipTopBit_ne (u : BytesN 32) : flipTopBit u ≠ u := by
  intro h
  have hlast := List.append_cancel_left ((congrArg BytesN.val h).trans (val_eq_take_append u))
  have hbyte := congrArg UInt8.toNat (List.cons.inj hlast).1
  rw [UInt8.toNat_add] at hbyte
  have hlt := (u.val.getD 31 0).toNat_lt
  have hconst : (0x80 : UInt8).toNat = 128 := rfl
  omega

end Rfc7748
end Wire
