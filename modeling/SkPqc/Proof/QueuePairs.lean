import Mathlib.Data.List.Forall2
import Mathlib.Data.Set.Card
import Mathlib.Data.Set.Finite.List
import SkPqc.Proof.AnonQueue

/-!
# Queues that cannot be linked

A relay sees two lists: the ids that are subscribed to and the addresses that are sent to. Each call of
`new_queue_pair` uses its first draw, some number of repetitions of it, and one draw that differs (`drawn`), so the
draws behind a list of pairs are a choice of those numbers and of what is left over. That choice does not depend on the
pairs: every list of pairs comes from equally many draws.
-/

namespace SkPqc
namespace AnonQueue

open Wire

/-- The two ids of a queue, the recipient's first. -/
abbrev QueuePair : Type := BytesN queueIdLen × BytesN queueIdLen

/-- What successive calls of `new_queue_pair` return. -/
def newQueuePairs : (n : Nat) → List (BytesN queueIdLen) → Option (List QueuePair × List (BytesN queueIdLen))
  | 0, draws => some ([], draws)
  | n + 1, draws => do
    let (pair, draws) ← newQueuePair draws
    let (pairs, draws) ← newQueuePairs n draws
    return (pair :: pairs, draws)

/-! ### The draws behind a pair -/

/-- The draws of one call, with the number of repetitions. -/
def drawnOnce (pair : QueuePair) (k : Nat) : List (BytesN queueIdLen) :=
  pair.1 :: (List.replicate k pair.1 ++ [pair.2])

def drawn : List QueuePair → List Nat → List (BytesN queueIdLen)
  | pair :: pairs, k :: ks => drawnOnce pair k ++ drawn pairs ks
  | _, _ => []

section Once
variable {r s : BytesN queueIdLen} {draws rest : List (BytesN queueIdLen)}

theorem redraw_eq_some :
    redraw r draws = some (s, rest) ↔ s ≠ r ∧ ∃ k, draws = List.replicate k r ++ s :: rest := by
  induction draws with
  | nil =>
    constructor
    · intro h
      cases h
    · rintro ⟨-, k, hk⟩
      exact absurd (congrArg List.length hk) (by simp)
  | cons d draws ih =>
    by_cases hd : d = r
    · rw [redraw, if_pos hd, ih, hd]
      refine and_congr_right fun hne => ⟨?_, ?_⟩
      · rintro ⟨k, rfl⟩
        exact ⟨k + 1, rfl⟩
      · rintro ⟨k, hk⟩
        cases k with
        | zero => exact absurd (List.cons.inj hk).1.symm hne
        | succ k => exact ⟨k, (List.cons.inj hk).2⟩
    · rw [redraw, if_neg hd]
      constructor
      · intro h
        cases h
        exact ⟨hd, 0, rfl⟩
      · rintro ⟨hne, k, hk⟩
        cases k with
        | zero =>
          cases hk
          rfl
        | succ k => exact absurd (List.cons.inj hk).1 hd

theorem newQueuePair_eq_some {pair : QueuePair} :
    newQueuePair draws = some (pair, rest) ↔ pair.2 ≠ pair.1 ∧ ∃ k, draws = drawnOnce pair k ++ rest := by
  obtain ⟨r, s⟩ := pair
  cases draws with
  | nil =>
    constructor
    · intro h
      cases h
    · rintro ⟨-, k, hk⟩
      cases hk
  | cons d draws =>
    simp only [newQueuePair, Option.bind_eq_bind, Option.bind_eq_some_iff, Prod.exists, redraw_eq_some, drawnOnce]
    constructor
    · rintro ⟨s', rest', ⟨hne, k, rfl⟩, hret⟩
      cases hret
      exact ⟨hne, k, by simp⟩
    · rintro ⟨hne, k, hk⟩
      obtain ⟨rfl, rfl⟩ := List.cons.inj hk
      exact ⟨s, rest, ⟨hne, k, by simp⟩, rfl⟩

theorem drawnOnce_inj {pair : QueuePair} (hne : pair.2 ≠ pair.1) {k k' : Nat} {rest' : List (BytesN queueIdLen)}
    (h : drawnOnce pair k ++ rest = drawnOnce pair k' ++ rest') : k = k' ∧ rest = rest' := by
  have hrest : some (pair, rest) = some (pair, rest') :=
    (newQueuePair_eq_some.mpr ⟨hne, k, rfl⟩).symm.trans (h ▸ newQueuePair_eq_some.mpr ⟨hne, k', rfl⟩)
  obtain rfl : rest = rest' := (Prod.mk.inj (Option.some.inj hrest)).2
  have hlen := congrArg List.length (List.append_cancel_right h)
  simp only [drawnOnce, List.length_cons, List.length_append, List.length_replicate] at hlen
  exact ⟨by omega, rfl⟩

end Once

/-! ### The draws behind several pairs -/

section Several
variable {pairs : List QueuePair} {draws rest : List (BytesN queueIdLen)}

theorem newQueuePairs_eq_some : newQueuePairs pairs.length draws = some (pairs, rest) ↔
    (∀ pair ∈ pairs, pair.2 ≠ pair.1) ∧ ∃ ks, ks.length = pairs.length ∧ draws = drawn pairs ks ++ rest := by
  induction pairs generalizing draws with
  | nil =>
    constructor
    · intro h
      cases h
      exact ⟨by simp, [], rfl, rfl⟩
    · rintro ⟨-, ks, -, rfl⟩
      rfl
  | cons pair pairs ih =>
    simp only [List.length_cons, newQueuePairs, Option.bind_eq_bind, Option.bind_eq_some_iff, Prod.exists,
      newQueuePair_eq_some, List.forall_mem_cons]
    constructor
    · rintro ⟨r, s, draws', ⟨hne, k, rfl⟩, pairs', rest', hpairs, hret⟩
      cases hret
      obtain ⟨hall, ks, hlen, rfl⟩ := ih.mp hpairs
      refine ⟨⟨hne, hall⟩, k :: ks, congrArg Nat.succ hlen, ?_⟩
      rw [drawn, List.append_assoc]
    · rintro ⟨⟨hne, hall⟩, ks, hlen, rfl⟩
      cases ks with
      | nil => cases hlen
      | cons k ks =>
        refine ⟨pair.1, pair.2, drawn pairs ks ++ rest, ⟨hne, k, ?_⟩, pairs, rest,
          ih.mpr ⟨hall, ks, Nat.succ.inj hlen, rfl⟩, rfl⟩
        rw [drawn, List.append_assoc]

theorem length_drawn {ks : List Nat} (hlen : ks.length = pairs.length) :
    (drawn pairs ks).length = 2 * pairs.length + ks.sum := by
  induction pairs generalizing ks with
  | nil =>
    obtain rfl := List.length_eq_zero_iff.mp hlen
    rfl
  | cons pair pairs ih =>
    cases ks with
    | nil => cases hlen
    | cons k ks =>
      have hrest := ih (Nat.succ.inj hlen)
      simp only [drawn, drawnOnce, List.length_append, List.length_cons, List.length_replicate, List.length_nil,
        List.sum_cons, hrest]
      omega

theorem drawn_inj (hall : ∀ pair ∈ pairs, pair.2 ≠ pair.1) {ks ks' : List Nat} (hlen : ks.length = pairs.length)
    (hlen' : ks'.length = pairs.length) {rest' : List (BytesN queueIdLen)}
    (h : drawn pairs ks ++ rest = drawn pairs ks' ++ rest') : ks = ks' ∧ rest = rest' := by
  induction pairs generalizing ks ks' with
  | nil =>
    rw [List.length_eq_zero_iff.mp hlen, List.length_eq_zero_iff.mp hlen'] at h ⊢
    exact ⟨rfl, h⟩
  | cons pair pairs ih =>
    cases ks with
    | nil => cases hlen
    | cons k ks =>
      cases ks' with
      | nil => cases hlen'
      | cons k' ks' =>
        rw [drawn, drawn, List.append_assoc, List.append_assoc] at h
        obtain ⟨rfl, htail⟩ := drawnOnce_inj (hall pair List.mem_cons_self) h
        obtain ⟨rfl, rfl⟩ := ih (fun p hp => hall p (List.mem_cons_of_mem _ hp)) (Nat.succ.inj hlen)
          (Nat.succ.inj hlen') htail
        exact ⟨rfl, rfl⟩

end Several

/-! ### What the relay sees -/

/-- How often each pair repeats, and what is left over of `n` draws after `m` calls. -/
def Choices (m n : Nat) : Set (List Nat × List (BytesN queueIdLen)) :=
  {choice | choice.1.length = m ∧ 2 * m + choice.1.sum + choice.2.length = n}

/-- The `n` draws behind the pairs. -/
def Behind (n : Nat) (pairs : List QueuePair) : Set (List (BytesN queueIdLen)) :=
  {draws | draws.length = n ∧ ∃ rest, newQueuePairs pairs.length draws = some (pairs, rest)}

theorem behind_eq_image {pairs : List QueuePair} (hall : ∀ pair ∈ pairs, pair.2 ≠ pair.1) (n : Nat) :
    Behind n pairs = (fun choice => drawn pairs choice.1 ++ choice.2) '' Choices pairs.length n := by
  ext draws
  simp only [Behind, Set.mem_ofPred_eq, newQueuePairs_eq_some, Set.mem_image, Choices, Prod.exists]
  constructor
  · rintro ⟨hn, rest, -, ks, hlen, rfl⟩
    rw [List.length_append, length_drawn hlen] at hn
    exact ⟨ks, rest, ⟨hlen, hn⟩, rfl⟩
  · rintro ⟨ks, rest, ⟨hlen, hn⟩, rfl⟩
    rw [List.length_append, length_drawn hlen]
    exact ⟨hn, rest, hall, ks, hlen, rfl⟩

/-- The number of draws behind a list of pairs depends on how many pairs it has. -/
theorem ncard_behind {pairs : List QueuePair} (hall : ∀ pair ∈ pairs, pair.2 ≠ pair.1) (n : Nat) :
    (Behind n pairs).ncard = (Choices pairs.length n).ncard := by
  rw [behind_eq_image hall]
  apply Set.InjOn.ncard_image
  rintro ⟨ks, rest⟩ ⟨hlen, -⟩ ⟨ks', rest'⟩ ⟨hlen', -⟩ h
  obtain ⟨rfl, rfl⟩ := drawn_inj hall hlen hlen' h
  rfl

/-- The address of a queue on a relay. -/
def AddressOf (relay : Str) (pair : QueuePair) (address : Str) : Prop :=
  encodeAqid (.str relay) (.bytes pair.2) = .ok address

theorem encodeAqid_inj {relay address : Str} {id id' : BytesN queueIdLen}
    (h : encodeAqid (.str relay) (.bytes id) = .ok address) (h' : encodeAqid (.str relay) (.bytes id') = .ok address) :
    id = id' := by
  by_cases hne : relay = []
  · simp only [encodeAqid, hne, if_true] at h
    cases h
  by_cases hslash : relay.contains (chr '/') = true
  · simp only [encodeAqid, hne, hslash, if_true, if_false] at h
    cases h
  · rw [List.contains_iff_mem] at hslash
    rw [encodeAqid_eq hne hslash (PyVal.data?_bytes _) id.length_val] at h
    rw [encodeAqid_eq hne hslash (PyVal.data?_bytes _) id'.length_val] at h'
    have hdecode := decodeAqid_urlsafeText ⟨rfl, hne, hslash⟩ id.length_val
    have hdecode' := decodeAqid_urlsafeText ⟨rfl, hne, hslash⟩ id'.length_val
    rw [Except.ok.inj h] at hdecode
    rw [Except.ok.inj h', hdecode] at hdecode'
    exact BytesN.ext (Prod.mk.inj (Except.ok.inj hdecode')).2

instance (n : Nat) : Finite (BytesN n) := by
  have : Finite UInt8 := Finite.of_injective UInt8.toFin fun _ _ => UInt8.toFin_inj.mp
  have hlists : Finite {b : Bytes | b.length = n} := (List.finite_length_eq UInt8 n).to_subtype
  exact Finite.of_injective (fun b : BytesN n => (⟨b.val, b.length_val⟩ : {b : Bytes | b.length = n}))
    fun _ _ h => BytesN.ext (congrArg Subtype.val h)

/-- The `n` draws whose queues subscribe to these ids and are sent to under these addresses, in one order. -/
def Shown (relay : Str) (n : Nat) (recipientIds : List (BytesN queueIdLen)) (addresses : List Str) :
    Set (List (BytesN queueIdLen)) :=
  {draws | draws.length = n ∧ ∃ pairs rest, newQueuePairs addresses.length draws = some (pairs, rest) ∧
    pairs.map Prod.fst = recipientIds ∧ List.Forall₂ (AddressOf relay) pairs addresses}

/-- No id is the one of the address beside it. -/
def Apart (relay : Str) (recipientIds : List (BytesN queueIdLen)) (addresses : List Str) : Prop :=
  List.Forall₂ (fun recipientId address => ∃ senderId, AddressOf relay (recipientId, senderId) address ∧
    senderId ≠ recipientId) recipientIds addresses

section Relay
variable {relay : Str} {n : Nat} {recipientIds : List (BytesN queueIdLen)} {addresses : List Str}

theorem exists_pairs_of_apart (h : Apart relay recipientIds addresses) : ∃ pairs : List QueuePair,
    pairs.map Prod.fst = recipientIds ∧ List.Forall₂ (AddressOf relay) pairs addresses ∧
      ∀ pair ∈ pairs, pair.2 ≠ pair.1 := by
  induction h with
  | nil => exact ⟨[], rfl, .nil, by simp⟩
  | @cons recipientId address _ _ hfirst _ ih =>
    obtain ⟨senderId, haddress, hne⟩ := hfirst
    obtain ⟨pairs, rfl, haddresses, hall⟩ := ih
    exact ⟨(recipientId, senderId) :: pairs, rfl, .cons haddress haddresses, List.forall_mem_cons.mpr ⟨hne, hall⟩⟩

theorem apart_of_pairs {pairs : List QueuePair} (haddresses : List.Forall₂ (AddressOf relay) pairs addresses)
    (hall : ∀ pair ∈ pairs, pair.2 ≠ pair.1) : Apart relay (pairs.map Prod.fst) addresses := by
  induction haddresses with
  | nil => exact .nil
  | cons haddress _ ih =>
    obtain ⟨hne, hall⟩ := List.forall_mem_cons.mp hall
    exact .cons ⟨_, haddress, hne⟩ (ih hall)

/-- Ids and addresses leave one list of pairs. -/
theorem pairs_unique {pairs pairs' : List QueuePair} (hids : pairs.map Prod.fst = pairs'.map Prod.fst)
    (h : List.Forall₂ (AddressOf relay) pairs addresses) (h' : List.Forall₂ (AddressOf relay) pairs' addresses) :
    pairs = pairs' := by
  induction h generalizing pairs' with
  | nil =>
    cases h'
    rfl
  | cons haddress _ ih =>
    cases h' with
    | cons haddress' hrest =>
      obtain ⟨hid, hids⟩ := List.cons.inj hids
      rw [ih hids hrest, Prod.ext hid (encodeAqid_inj haddress haddress')]

theorem shown_eq_behind {pairs : List QueuePair} (haddresses : List.Forall₂ (AddressOf relay) pairs addresses) :
    Shown relay n (pairs.map Prod.fst) addresses = Behind n pairs := by
  ext draws
  simp only [Shown, Behind, Set.mem_ofPred_eq, haddresses.length_eq]
  refine and_congr_right fun _ => ⟨?_, ?_⟩
  · rintro ⟨pairs', rest, hpairs, hids, haddresses'⟩
    rw [pairs_unique hids haddresses' haddresses] at hpairs
    exact ⟨rest, hpairs⟩
  · rintro ⟨rest, hpairs⟩
    exact ⟨pairs, rest, hpairs, rfl, haddresses⟩

/-- Which of the subscribed ids belongs to which address does not show: only ids that differ from those of their
addresses occur together, and every such assignment of ids to addresses comes from equally many draws, of any number.
Some draws do give it once there are two for each queue. -/
theorem queues_unlinkable (relay : Str) (n : Nat) (recipientIds : List (BytesN queueIdLen)) (addresses : List Str) :
    ((Shown relay n recipientIds addresses).Nonempty → Apart relay recipientIds addresses) ∧
      (Apart relay recipientIds addresses →
        (∀ recipientIds', Apart relay recipientIds' addresses →
          (Shown relay n recipientIds' addresses).ncard = (Shown relay n recipientIds addresses).ncard) ∧
        (2 * addresses.length ≤ n → 0 < (Shown relay n recipientIds addresses).ncard)) := by
  constructor
  · rintro ⟨draws, -, pairs, rest, hpairs, rfl, haddresses⟩
    rw [← haddresses.length_eq] at hpairs
    exact apart_of_pairs haddresses (newQueuePairs_eq_some.mp hpairs).1
  · intro h
    obtain ⟨pairs, rfl, haddresses, hall⟩ := exists_pairs_of_apart h
    refine ⟨fun recipientIds' h' => ?_, fun hn => ?_⟩
    · obtain ⟨pairs', rfl, haddresses', hall'⟩ := exists_pairs_of_apart h'
      rw [shown_eq_behind haddresses, shown_eq_behind haddresses', ncard_behind hall, ncard_behind hall',
        haddresses.length_eq, haddresses'.length_eq]
    · have hfinite : (Shown relay n (pairs.map Prod.fst) addresses).Finite :=
        (List.finite_length_eq (BytesN queueIdLen) n).subset fun draws hdraws => hdraws.1
      rw [Set.ncard_pos hfinite, shown_eq_behind haddresses, behind_eq_image hall, Set.image_nonempty]
      refine ⟨(List.replicate pairs.length 0, List.replicate (n - 2 * pairs.length) (.zero _)), ?_, ?_⟩
      · simp
      · rw [← haddresses.length_eq] at hn
        simp only [List.sum_replicate_nat, List.length_replicate]
        omega

end Relay

/-! ### Two queues -/

namespace QueueExample

def queueId (b : UInt8) : BytesN queueIdLen := ⟨List.replicate 16 b, rfl⟩

/-- The addresses of two queues on one relay. -/
def addresses : List Str :=
  [queueId 2, queueId 4].map fun senderId => aqidScheme ++ str "r" ++ str "/" ++ urlsafeText senderId

theorem addressOf_queueId (recipientId : BytesN queueIdLen) (b : UInt8) :
    AddressOf (str "r") (recipientId, queueId b) (aqidScheme ++ str "r" ++ str "/" ++ urlsafeText (queueId b)) :=
  encodeAqid_eq (by decide) (by decide) (PyVal.data?_bytes _) (queueId b).length_val

/-- Two ids subscribe, and of four draws as many give one of them to the first address as give it to the second. -/
theorem queues_unlinkable_run :
    (Shown (str "r") 4 [queueId 3, queueId 1] addresses).ncard
        = (Shown (str "r") 4 [queueId 1, queueId 3] addresses).ncard ∧
      0 < (Shown (str "r") 4 [queueId 1, queueId 3] addresses).ncard := by
  have hpairs : Apart (str "r") [queueId 1, queueId 3] addresses :=
    .cons ⟨queueId 2, addressOf_queueId _ 2, by decide⟩ (.cons ⟨queueId 4, addressOf_queueId _ 4, by decide⟩ .nil)
  have hcrossed : Apart (str "r") [queueId 3, queueId 1] addresses :=
    .cons ⟨queueId 2, addressOf_queueId _ 2, by decide⟩ (.cons ⟨queueId 4, addressOf_queueId _ 4, by decide⟩ .nil)
  obtain ⟨hsame, hsome⟩ := (queues_unlinkable (str "r") 4 [queueId 1, queueId 3] addresses).2 hpairs
  exact ⟨hsame _ hcrossed, hsome (by decide)⟩

end QueueExample

end AnonQueue
end SkPqc
