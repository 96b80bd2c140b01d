import SkPqc.Model.Pqdm2
import SkPqc.Model.Pqroute
import SkPqc.Model.Ratchet
import SkPqc.Proof.StandIn

/-!
# Domain separation

The eight ways the code calls HKDF. The combiner is told apart by its input key material, which is two
secrets long; the other seven by labels of which none is a prefix of another, each at the front of
its `info`. What follows a label (an AAD, a route header, an index) is therefore free.
-/

namespace SkPqc

open Wire

/-- The layers that derive keys. -/
inductive Layer where
  | combiner
  | pqdmWrap
  | pqdm2SlotWrap
  | pqrouteWrap
  | groupEpochWrap
  | groupMessageKey
  | dmEpochWrap
  | dmMessageKey
  deriving DecidableEq

/-- One HKDF call of a layer, with the secrets and the caller's choices that go into it. -/
inductive Derivation where
  | combiner (x25519Ss mlkemSs : BytesN 32) (info : Bytes)
  | pqdmWrap (shared : BytesN 32) (aad : Bytes)
  | pqdm2SlotWrap (shared : BytesN 32)
  | pqrouteWrap (shared : BytesN 32) (routeHdr : Bytes)
  | groupEpochWrap (shared : BytesN 32)
  | groupMessageKey (epochSecret : BytesN 32) (epoch index : Int)
  | dmEpochWrap (shared : BytesN 32)
  | dmMessageKey (epochSecret : BytesN 32) (epoch index : Int)

namespace Derivation

def layer : Derivation → Layer
  | combiner .. => .combiner
  | pqdmWrap .. => .pqdmWrap
  | pqdm2SlotWrap .. => .pqdm2SlotWrap
  | pqrouteWrap .. => .pqrouteWrap
  | groupEpochWrap .. => .groupEpochWrap
  | groupMessageKey .. => .groupMessageKey
  | dmEpochWrap .. => .dmEpochWrap
  | dmMessageKey .. => .dmMessageKey

/-- What the layer feeds HKDF. -/
def input : Derivation → HkdfInput
  | combiner x25519Ss mlkemSs info => Pqkem.combineInput x25519Ss mlkemSs info
  | pqdmWrap shared aad => Pqdm.wrapKeyInput shared aad
  | pqdm2SlotWrap shared => Pqdm.pqdm2WrapKeyInput shared
  | pqrouteWrap shared routeHdr => Pqroute.wrapKeyInput shared (Pqroute.aad routeHdr)
  | groupEpochWrap shared => GroupRatchet.layer.epochWrapInput shared
  | groupMessageKey epochSecret epoch index => GroupRatchet.layer.messageKeyInput epochSecret epoch index
  | dmEpochWrap shared => DmRatchet.layer.epochWrapInput shared
  | dmMessageKey epochSecret epoch index => DmRatchet.layer.messageKeyInput epochSecret epoch index

end Derivation

/-- The block that HMAC-SHA256 makes of a key: hashed when longer than a block, then padded with zeros. -/
def hmacKey (P : Primitives) (salt : Bytes) : Bytes :=
  let key := if salt.length ≤ 64 then salt else (P.sha256 salt).val
  key ++ List.replicate (64 - key.length) 0

/-- What HKDF depends on: the salt as HMAC key, the input key material and the `info`. -/
def HkdfInput.effective (P : Primitives) (i : HkdfInput) : Bytes × Bytes × Bytes :=
  (hmacKey P i.salt, i.ikm, i.info)

namespace Layer

/-- The constant front of a layer's `info`; the combiner's `info` is the caller's. -/
def label : Layer → Bytes
  | combiner => []
  | pqdmWrap => Pqdm.infoWrap
  | pqdm2SlotWrap => Pqdm.pqdm2WrapInfo
  | pqrouteWrap => Pqroute.infoWrap
  | groupEpochWrap => GroupRatchet.layer.infoEpochWrap
  | groupMessageKey => GroupRatchet.layer.infoMessageKey
  | dmEpochWrap => DmRatchet.layer.infoEpochWrap
  | dmMessageKey => DmRatchet.layer.infoMessageKey

/-- No label is a prefix of another. -/
theorem not_label_prefix {l l' : Layer} (hl : l ≠ combiner) (hne : l ≠ l') : ¬label l <+: label l' := by
  cases l <;> cases l' <;> first | exact absurd rfl hl | exact absurd rfl hne | decide

end Layer

namespace Derivation

theorem label_prefix_info (d : Derivation) : d.layer.label <+: d.input.info := by
  cases d with
  | combiner => exact List.nil_prefix
  | pqdm2SlotWrap | groupEpochWrap | dmEpochWrap => exact List.prefix_rfl
  | pqdmWrap | pqrouteWrap | groupMessageKey | dmMessageKey =>
    exact (List.prefix_append _ _).trans (List.prefix_append _ _)

theorem length_ikm (d : Derivation) : d.input.ikm.length = if d.layer = .combiner then 64 else 32 := by
  cases d <;> simp [layer, input, Pqkem.combineInput, Pqdm.wrapKeyInput, Pqdm.pqdm2WrapKeyInput,
    Pqroute.wrapKeyInput, RatchetLayer.epochWrapInput, RatchetLayer.messageKeyInput]

/-- Two labels at the front of one `info` belong to one layer. -/
theorem layer_eq_of_info_eq {d d' : Derivation} (hd : d.layer ≠ .combiner) (hd' : d'.layer ≠ .combiner)
    (hinfo : d.input.info = d'.input.info) : d.layer = d'.layer := by
  by_contra hne
  have hfront := d.label_prefix_info
  rw [hinfo] at hfront
  rcases List.prefix_or_prefix_of_prefix hfront d'.label_prefix_info with h | h
  · exact Layer.not_label_prefix hd hne h
  · exact Layer.not_label_prefix hd' (Ne.symm hne) h

/-- Different layers never make the same HKDF call. -/
theorem effective_ne_of_layer_ne (P : Primitives) {d d' : Derivation} (hlayer : d.layer ≠ d'.layer) :
    d.input.effective P ≠ d'.input.effective P := by
  intro heq
  have hikm : d.input.ikm.length = d'.input.ikm.length := congrArg (fun e => e.2.1.length) heq
  have hinfo : d.input.info = d'.input.info := congrArg (fun e => e.2.2) heq
  rw [length_ikm, length_ikm] at hikm
  by_cases hd : d.layer = .combiner
  · rw [if_pos hd, if_neg fun hd' => hlayer (hd.trans hd'.symm)] at hikm
    omega
  by_cases hd' : d'.layer = .combiner
  · rw [if_neg hd, if_pos hd'] at hikm
    omega
  exact hlayer (layer_eq_of_info_eq hd hd' hinfo)

/-- A group and a DM message key of one secret, epoch and index. -/
theorem effective_groupMessageKey_ne_dmMessageKey :
    (groupMessageKey (.zero 32) 0 0).input.effective (StandIn.primitives StandIn.sums [])
      ≠ (dmMessageKey (.zero 32) 0 0).input.effective (StandIn.primitives StandIn.sums []) :=
  effective_ne_of_layer_ne _ (by decide)

end Derivation

end SkPqc
