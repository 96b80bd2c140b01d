import Mathlib.Data.Int.ModEq
import Mathlib.Data.List.Nodup
import Mathlib.Data.Set.Function
import Mathlib.Tactic.IntervalCases
import SkPqc.Model.Ratchet
import SkPqc.Proof.StandIn
import SkPqc.Runs.Objects

/-!
# Runs of the ratchets

A ratchet's counter is the number of keys it has issued, on top of where it started (`after_exec`), and a
message key depends on the epoch secret, the epoch and the index only. So the keys that one object issues
are those of consecutive indices (`issued_history`), whatever other calls and other objects come between:
an object's part of an interleaving is a run of its own.
-/

namespace SkPqc

open Wire Runs

/-- The ratchet with its counter `n` further. -/
def RatchetState.advance (r : RatchetState) (n : Nat) : RatchetState := { r with messageIndex := r.messageIndex + n }

namespace RatchetState

@[simp] theorem advance_epoch (r : RatchetState) (n : Nat) : (r.advance n).epoch = r.epoch := rfl

@[simp] theorem advance_epochSecret (r : RatchetState) (n : Nat) : (r.advance n).epochSecret = r.epochSecret := rfl

@[simp] theorem advance_messageIndex (r : RatchetState) (n : Nat) :
    (r.advance n).messageIndex = r.messageIndex + n := rfl

@[simp] theorem advance_zero (r : RatchetState) : r.advance 0 = r := by simp [advance]

theorem advance_advance (r : RatchetState) (m n : Nat) : (r.advance m).advance n = r.advance (m + n) := by
  simp [advance, add_assoc]

end RatchetState

namespace RatchetLayer

variable (L : RatchetLayer) (P : Primitives)

/-! ### One call -/

/-- The message key of an index under a ratchet's epoch. -/
def keyAt (r : RatchetState) (index : Int) : BytesN 32 := P.hkdf (L.messageKeyInput r.epochSecret r.epoch index)

variable {L P}

theorem deriveMessageKey_eq {secret : Bytes} (h : secret.length = epochSecretLen) (epoch index : Int) :
    L.deriveMessageKey P secret epoch index = .ok (P.hkdf (L.messageKeyInput secret epoch index)) := by
  simp only [deriveMessageKey, checkEpochSecret, h, ne_eq, not_true_eq_false, if_false]
  rfl

theorem exec_messageKey {r : RatchetState} (h : r.epochSecret.length = epochSecretLen) (index : Option Int) :
    L.exec P r (.messageKey index) = (.ok (.key (L.keyAt P r (index.getD r.messageIndex))), r) := by
  rw [exec, messageKey, deriveMessageKey_eq h]
  rfl

theorem exec_nextOutboundKey {r : RatchetState} (h : r.epochSecret.length = epochSecretLen) :
    L.exec P r .nextOutboundKey
      = (.ok (.outbound r.messageIndex (L.keyAt P r r.messageIndex)), r.advance 1) := by
  simp only [exec, nextOutboundKey, deriveMessageKey_eq h]
  rfl

/-- Only `next_outbound_key` moves the counter. -/
theorem exec_snd {r : RatchetState} (h : r.epochSecret.length = epochSecretLen) (call : RatchetCall) :
    (L.exec P r call).2 = r.advance ([call].count .nextOutboundKey) := by
  cases call with
  | messageKey index => rw [exec_messageKey h]; simp
  | nextOutboundKey => rw [exec_nextOutboundKey h]; simp
  | shouldRekey now clock => simp [exec]

/-- Only `next_outbound_key` changes a ratchet. -/
theorem exec_of_ne (r : RatchetState) {call : RatchetCall} (h : call ≠ .nextOutboundKey) : (L.exec P r call).2 = r := by
  cases call with
  | messageKey index => rfl
  | nextOutboundKey => exact absurd rfl h
  | shouldRekey now clock => rfl

/-- A call that raises changes nothing. -/
theorem exec_of_error {r : RatchetState} {call : RatchetCall} {e : Exc} (h : (L.exec P r call).1 = .error e) :
    (L.exec P r call).2 = r := by
  by_cases hcall : call = .nextOutboundKey
  · subst hcall
    cases hkey : L.deriveMessageKey P r.epochSecret r.epoch r.messageIndex with
    | error e' => simp only [exec, nextOutboundKey, hkey]
    | ok key =>
      simp only [exec, nextOutboundKey, hkey, ok_bind] at h
      cases h
  · exact exec_of_ne r hcall

/-- What two derivations feed HKDF is the same exactly when the secrets are, and the epochs and the indices
modulo `2 ^ 64`. -/
theorem messageKeyInput_eq_iff {secret secret' : Bytes} {epoch index epoch' index' : Int} :
    L.messageKeyInput secret epoch index = L.messageKeyInput secret' epoch' index' ↔
      secret = secret' ∧ epoch ≡ epoch' [ZMOD 2 ^ 64] ∧ index ≡ index' [ZMOD 2 ^ 64] := by
  simp only [messageKeyInput, epochSalt, HkdfInput.mk.injEq, List.append_cancel_left_eq, packU64_inj, Int.ModEq]
  constructor
  · rintro ⟨hepoch, hsecret, hindex⟩
    exact ⟨hsecret, hepoch, hindex⟩
  · rintro ⟨hsecret, hepoch, hindex⟩
    exact ⟨hepoch, hsecret, hindex⟩

/-! ### Runs of one ratchet -/

/-- A run leaves a ratchet as it was, but for the counter. -/
theorem after_exec {r : RatchetState} (h : r.epochSecret.length = epochSecretLen) (calls : List RatchetCall) :
    after (L.exec P) r calls = r.advance (calls.count .nextOutboundKey) := by
  induction calls generalizing r with
  | nil => simp
  | cons call calls ih =>
    have hrest := @ih (r.advance ([call].count .nextOutboundKey)) h
    rw [after_cons, exec_snd h, hrest, RatchetState.advance_advance, ← List.count_append, List.singleton_append]

theorem exec_returns {r : RatchetState} (h : r.epochSecret.length = epochSecretLen) (call : RatchetCall) :
    ∃ reply, (L.exec P r call).1 = .ok reply := by
  cases call with
  | messageKey index => exact ⟨_, congrArg Prod.fst (exec_messageKey h index)⟩
  | nextOutboundKey => exact ⟨_, congrArg Prod.fst (exec_nextOutboundKey h)⟩
  | shouldRekey now clock => exact ⟨_, rfl⟩

/-- Under a 32-byte secret no call of a run fails. -/
theorem history_returns {r : RatchetState} (h : r.epochSecret.length = epochSecretLen) (calls : List RatchetCall) :
    ∀ entry ∈ history (L.exec P) r calls, ∃ reply, entry.2 = .ok reply := by
  induction calls generalizing r with
  | nil =>
    intro entry hentry
    cases hentry
  | cons call calls ih =>
    intro entry hentry
    rw [history, List.mem_cons] at hentry
    rcases hentry with rfl | hentry
    · exact exec_returns h call
    · refine ih ?_ entry hentry
      rw [exec_snd h, RatchetState.advance_epochSecret, h]

/-- The index and the key that a `next_outbound_key` call returned. -/
def outbound? : Py RatchetReply → Option (Int × BytesN 32)
  | .ok (.outbound index key) => some (index, key)
  | _ => none

theorem outbound?_exec {r : RatchetState} (h : r.epochSecret.length = epochSecretLen) (call : RatchetCall) :
    outbound? (L.exec P r call).1
      = if call = .nextOutboundKey then some (r.messageIndex, L.keyAt P r r.messageIndex) else none := by
  cases call with
  | messageKey index => rw [exec_messageKey h]; rfl
  | nextOutboundKey => rw [exec_nextOutboundKey h]; rfl
  | shouldRekey now clock => rfl

/-- The indices and keys that a ratchet issued. -/
def issued (h : List (RatchetCall × Py RatchetReply)) : List (Int × BytesN 32) :=
  h.filterMap fun entry => outbound? entry.2

variable (L P) in
/-- The index and the key that the call after `j` others issues. -/
def nth (r : RatchetState) (j : Nat) : Int × BytesN 32 := (r.messageIndex + j, L.keyAt P r (r.messageIndex + j))

/-- Counting from the next key on. -/
theorem nth_succ (r : RatchetState) (j : Nat) :
    L.nth P (r.advance 1) j = L.nth P r (j + 1) := by
  have hindex : r.messageIndex + (1 : Nat) + (j : Int) = r.messageIndex + ((j + 1 : Nat) : Int) := by omega
  simp only [nth, keyAt, RatchetState.advance_epoch, RatchetState.advance_epochSecret,
    RatchetState.advance_messageIndex, hindex]

/-- The keys that a run issues are those of consecutive indices. -/
theorem issued_history {r : RatchetState} (h : r.epochSecret.length = epochSecretLen) (calls : List RatchetCall) :
    issued (history (L.exec P) r calls) = (List.range (calls.count .nextOutboundKey)).map (L.nth P r) := by
  induction calls generalizing r with
  | nil => rfl
  | cons call calls ih =>
    rw [history]
    cases call with
    | messageKey index =>
      rw [exec_messageKey h, List.count_cons_of_ne (by simp), ← ih h]
      rfl
    | shouldRekey now clock =>
      rw [List.count_cons_of_ne (by simp), ← ih h]
      rfl
    | nextOutboundKey =>
      have hfirst : L.nth P r 0 = (r.messageIndex, L.keyAt P r r.messageIndex) := by
        simp only [nth, Nat.cast_zero, add_zero]
      have hrest := @ih (r.advance 1) h
      rw [funext (nth_succ r)] at hrest
      rw [exec_nextOutboundKey h, List.count_cons_self, List.range_succ_eq_map, List.map_cons, List.map_map, hfirst]
      exact congrArg _ hrest

/-! ### Interleavings of many ratchets -/

section Parties
variable {ι : Type} [DecidableEq ι]

variable (L P) in
/-- Everything that happens when several ratchets take their calls interleaved. -/
def interleave (ratchets : ι → RatchetState) (calls : List (ι × RatchetCall)) :
    List ((ι × RatchetCall) × Py RatchetReply) :=
  history (stepAt (L.exec P)) ratchets calls

variable (L P) in
/-- One party's ratchet after an interleaving. -/
def ratchetAfter (ratchets : ι → RatchetState) (calls : List (ι × RatchetCall)) (p : ι) : RatchetState :=
  after (stepAt (L.exec P)) ratchets calls p

/-- The number of keys that a party asks for. -/
def sends (p : ι) (calls : List (ι × RatchetCall)) : Nat := calls.count (p, .nextOutboundKey)

theorem ratchetAfter_eq {ratchets : ι → RatchetState} {p : ι} (h : (ratchets p).epochSecret.length = epochSecretLen)
    (calls : List (ι × RatchetCall)) :
    L.ratchetAfter P ratchets calls p = (ratchets p).advance (sends p calls) := by
  rw [ratchetAfter, after_stepAt, after_exec h, count_callsOf, sends]

/-- What a party issues in an interleaving. -/
theorem issued_interleave {ratchets : ι → RatchetState} {p : ι} (h : (ratchets p).epochSecret.length = epochSecretLen)
    (calls : List (ι × RatchetCall)) : issued (historyOf p (L.interleave P ratchets calls))
      = (List.range (sends p calls)).map (L.nth P (ratchets p)) := by
  rw [interleave, historyOf_stepAt, issued_history h, count_callsOf, sends]

/-- Fewer than `2 ^ 64` keys of one ratchet are all different. -/
theorem nodup_nth {r : RatchetState} {n : Nat} (hn : n < 2 ^ 64)
    (hhkdf : Set.InjOn P.hkdf
      {i | ∃ j < n, i = L.messageKeyInput r.epochSecret r.epoch (L.nth P r j).1}) :
    (((List.range n).map (L.nth P r)).map Prod.snd).Nodup := by
  rw [List.map_map]
  refine List.Nodup.map_on ?_ List.nodup_range
  intro j hj k hk hsame
  rw [List.mem_range] at hj hk
  have hinput := hhkdf ⟨j, hj, rfl⟩ ⟨k, hk, rfl⟩ hsame
  obtain ⟨-, -, hindex⟩ := messageKeyInput_eq_iff.mp hinput
  simp only [nth, Int.ModEq] at hindex
  omega

/-- Runs of ratchets, interleaved in any way. A send returns the next index and the key of that index, which
the sender's `message_key()` gives just before, and every ratchet of the same epoch gives for the index at any
time. No other call changes a ratchet, and no call that raises. Two derivations are the same exactly modulo
`2 ^ 64`, so a ratchet does not issue a key twice. -/
theorem ratchet_runs {ratchets : ι → RatchetState} {p : ι} (hsecret : (ratchets p).epochSecret.length = 32) :
    (∀ before : List (ι × RatchetCall), ∃ key,
      (L.exec P (L.ratchetAfter P ratchets before p) .nextOutboundKey).1
        = .ok (.outbound ((ratchets p).messageIndex + sends p before) key) ∧
      (L.exec P (L.ratchetAfter P ratchets before p) (.messageKey none)).1 = .ok (.key key) ∧
      ∀ q, (ratchets q).epoch = (ratchets p).epoch → (ratchets q).epochSecret = (ratchets p).epochSecret →
        ∀ other, (L.exec P (L.ratchetAfter P ratchets other q)
          (.messageKey (some ((ratchets p).messageIndex + sends p before)))).1 = .ok (.key key)) ∧
    (∀ r call, call ≠ .nextOutboundKey → (L.exec P r call).2 = r) ∧
    (∀ r call e, (L.exec P r call).1 = .error e → (L.exec P r call).2 = r) ∧
    (∀ secret secret' epoch epoch' index index',
      L.messageKeyInput secret epoch index = L.messageKeyInput secret' epoch' index' ↔
        secret = secret' ∧ epoch ≡ epoch' [ZMOD 2 ^ 64] ∧ index ≡ index' [ZMOD 2 ^ 64]) ∧
    ∀ calls : List (ι × RatchetCall), sends p calls < 2 ^ 64 →
      Set.InjOn P.hkdf {i | ∃ j < sends p calls, i = L.messageKeyInput (ratchets p).epochSecret (ratchets p).epoch
        ((ratchets p).messageIndex + j)} →
      ((issued (historyOf p (L.interleave P ratchets calls))).map Prod.snd).Nodup := by
  refine ⟨?_, fun _ _ => exec_of_ne _, fun _ _ _ => exec_of_error, fun _ _ _ _ _ _ => messageKeyInput_eq_iff, ?_⟩
  · intro before
    have hnow : ((ratchets p).advance (sends p before)).epochSecret.length = epochSecretLen := hsecret
    refine ⟨L.keyAt P (ratchets p) ((ratchets p).messageIndex + sends p before), ?_, ?_, ?_⟩
    · rw [ratchetAfter_eq hsecret, exec_nextOutboundKey hnow]
      rfl
    · rw [ratchetAfter_eq hsecret, exec_messageKey hnow]
      rfl
    · intro q hepoch hsame other
      have hq : (ratchets q).epochSecret.length = epochSecretLen := by rw [hsame, hsecret]
      have hthen : ((ratchets q).advance (sends q other)).epochSecret.length = epochSecretLen := hq
      rw [ratchetAfter_eq hq, exec_messageKey hthen]
      simp only [keyAt, RatchetState.advance_epoch, RatchetState.advance_epochSecret, hepoch, hsame, Option.getD_some]
  · intro calls hcount hhkdf
    rw [issued_interleave hsecret]
    exact nodup_nth hcount hhkdf

/-! ### The messages of an epoch -/

/-- A message as its key sees it: the sender, the index on the wire and the key. -/
structure Message (ι : Type) where
  party : ι
  index : Int
  key : BytesN 32

/-- The messages that are sent: one for each `next_outbound_key` that returned. -/
def messages (h : List ((ι × RatchetCall) × Py RatchetReply)) : List (Message ι) :=
  h.filterMap fun entry => (outbound? entry.2).map fun out => ⟨entry.1.1, out.1, out.2⟩

/-- A party's messages are what it issued. -/
theorem filter_messages (h : List ((ι × RatchetCall) × Py RatchetReply)) (p : ι) :
    ((messages h).filter fun m => m.party = p) = (issued (historyOf p h)).map fun out => ⟨p, out.1, out.2⟩ := by
  induction h with
  | nil => rfl
  | cons entry h ih =>
    obtain ⟨⟨q, call⟩, reply⟩ := entry
    unfold messages issued historyOf at ih ⊢
    cases hreply : outbound? reply with
    | none => by_cases hq : q = p <;> simp [hq, hreply, ih]
    | some out => by_cases hq : q = p <;> simp [hq, hreply, ih]

section Epoch
variable {ratchets : ι → RatchetState} {epoch : Int} {secret : BytesN 32}

/-- The parties of an epoch: the same epoch and secret, and the default counter. -/
def SameEpoch (ratchets : ι → RatchetState) (epoch : Int) (secret : BytesN 32) : Prop :=
  ∀ p, (ratchets p).epoch = epoch ∧ (ratchets p).epochSecret = secret ∧ (ratchets p).messageIndex = 0

variable (L P epoch secret) in
/-- The message key of an index in the epoch. -/
def epochKey (index : Int) : BytesN 32 := P.hkdf (L.messageKeyInput secret epoch index)

/-- A party's messages carry the indices from zero on. -/
theorem filter_interleave (hepoch : SameEpoch ratchets epoch secret) (calls : List (ι × RatchetCall)) (p : ι) :
    ((messages (L.interleave P ratchets calls)).filter fun m => m.party = p)
      = (List.range (sends p calls)).map fun j => ⟨p, j, L.epochKey P epoch secret j⟩ := by
  obtain ⟨hsame, hsecret, hindex⟩ := hepoch p
  have hlen : (ratchets p).epochSecret.length = epochSecretLen := by rw [hsecret, secret.length_val]
  rw [filter_messages, issued_interleave hlen, List.map_map]
  refine List.map_congr_left fun j _ => ?_
  simp only [Function.comp_apply, nth, keyAt, epochKey, hsame, hsecret, hindex, zero_add]

theorem mem_messages (hepoch : SameEpoch ratchets epoch secret) {calls : List (ι × RatchetCall)} {m : Message ι} :
    m ∈ messages (L.interleave P ratchets calls) ↔
      ∃ j < sends m.party calls, m = ⟨m.party, j, L.epochKey P epoch secret j⟩ := by
  have hown : m ∈ messages (L.interleave P ratchets calls) ↔
      m ∈ (messages (L.interleave P ratchets calls)).filter fun m' => m'.party = m.party := by simp
  rw [hown, filter_interleave hepoch, List.mem_map]
  simp only [List.mem_range, eq_comm]

/-- All the calls that ask for a key. -/
def senders (calls : List (ι × RatchetCall)) : List ι :=
  (calls.filter fun call => call.2 = .nextOutboundKey).map Prod.fst

theorem sends_eq_count (p : ι) (calls : List (ι × RatchetCall)) : sends p calls = (senders calls).count p := by
  induction calls with
  | nil => rfl
  | cons call calls ih =>
    obtain ⟨q, call⟩ := call
    unfold sends senders at ih ⊢
    by_cases hcall : call = .nextOutboundKey <;> simp [List.count_cons, hcall, ih]

/-- Every call for a key is answered. -/
theorem map_party_messages (hlen : ∀ p, (ratchets p).epochSecret.length = epochSecretLen)
    (calls : List (ι × RatchetCall)) :
    (messages (L.interleave P ratchets calls)).map Message.party = senders calls := by
  induction calls generalizing ratchets with
  | nil => rfl
  | cons entry calls ih =>
    obtain ⟨q, call⟩ := entry
    have hnext : ∀ p, ((stepAt (L.exec P) ratchets (q, call)).2 p).epochSecret.length = epochSecretLen := by
      intro p
      by_cases hp : q = p
      · subst hp
        rw [stepAt_self, exec_snd (hlen q), RatchetState.advance_epochSecret, hlen]
      · rw [stepAt_of_ne _ _ hp, hlen]
    have hrest := ih hnext
    unfold messages interleave senders at hrest ⊢
    rw [history, List.filterMap_cons, stepAt_fst, outbound?_exec (hlen q)]
    by_cases hcall : call = .nextOutboundKey
    · subst hcall
      simp [hrest]
    · simp [hcall, hrest]

/-- In one epoch two messages have the same key exactly when they carry the same index. -/
theorem key_eq_iff {calls : List (ι × RatchetCall)} (hepoch : SameEpoch ratchets epoch secret)
    (hcount : (senders calls).length < 2 ^ 64)
    (hhkdf : Set.InjOn P.hkdf {i | ∃ m ∈ messages (L.interleave P ratchets calls),
      i = L.messageKeyInput secret epoch m.index}) {m m' : Message ι}
    (hm : m ∈ messages (L.interleave P ratchets calls)) (hm' : m' ∈ messages (L.interleave P ratchets calls)) :
    m.key = m'.key ↔ m.index = m'.index := by
  obtain ⟨j, hj, heq⟩ := (mem_messages hepoch).mp hm
  obtain ⟨j', hj', heq'⟩ := (mem_messages hepoch).mp hm'
  have hkey : m.key = L.epochKey P epoch secret m.index := by rw [heq]
  have hkey' : m'.key = L.epochKey P epoch secret m'.index := by rw [heq']
  rw [hkey, hkey']
  constructor
  · intro hsame
    obtain ⟨-, -, hindex⟩ := messageKeyInput_eq_iff.mp (hhkdf ⟨m, hm, rfl⟩ ⟨m', hm', rfl⟩ hsame)
    have hle := List.count_le_length (a := m.party) (l := senders calls)
    have hle' := List.count_le_length (a := m'.party) (l := senders calls)
    rw [sends_eq_count] at hj hj'
    rw [heq, heq'] at hindex ⊢
    simp only [Int.ModEq] at hindex ⊢
    omega
  · intro hindex
    rw [hindex]

/-- Where keys tell indices apart, no party repeats a key. -/
theorem nodup_keys_party {calls : List (ι × RatchetCall)} (hepoch : SameEpoch ratchets epoch secret)
    (hkeys : ∀ m ∈ messages (L.interleave P ratchets calls), ∀ m' ∈ messages (L.interleave P ratchets calls),
      m.key = m'.key ↔ m.index = m'.index) (p : ι) :
    (((messages (L.interleave P ratchets calls)).filter fun m => m.party = p).map Message.key).Nodup := by
  rw [filter_interleave hepoch, List.map_map]
  refine List.Nodup.map_on ?_ List.nodup_range
  intro j hj k hk hsame
  rw [List.mem_range] at hj hk
  have hmem : ∀ j < sends p calls, ⟨p, j, L.epochKey P epoch secret j⟩ ∈ messages (L.interleave P ratchets calls) :=
    fun j hj => (mem_messages hepoch).mpr ⟨j, hj, rfl⟩
  exact Int.ofNat.inj ((hkeys _ (hmem j hj) _ (hmem k hk)).mp hsame)

/-- A party that sends at all sends a message with index zero. -/
theorem first_mem_messages {calls : List (ι × RatchetCall)} (hepoch : SameEpoch ratchets epoch secret) {p : ι}
    (hp : p ∈ senders calls) :
    ⟨p, (0 : Nat), L.epochKey P epoch secret (0 : Nat)⟩ ∈ messages (L.interleave P ratchets calls) := by
  have hpos : 0 < sends p calls := by
    rw [sends_eq_count]
    exact List.count_pos_iff.mpr hp
  exact (mem_messages hepoch).mpr ⟨0, hpos, rfl⟩

/-- In one epoch two messages have the same key exactly when they carry the same index. So no party repeats a
key, and the keys of the epoch are all different exactly when one party sends them all. -/
theorem messages_keys {calls : List (ι × RatchetCall)} (hepoch : SameEpoch ratchets epoch secret)
    (hcount : (senders calls).length < 2 ^ 64)
    (hhkdf : Set.InjOn P.hkdf {i | ∃ m ∈ messages (L.interleave P ratchets calls),
      i = L.messageKeyInput secret epoch m.index}) :
    (messages (L.interleave P ratchets calls)).map Message.party = senders calls ∧
    (∀ m ∈ messages (L.interleave P ratchets calls), ∀ m' ∈ messages (L.interleave P ratchets calls),
      m.key = m'.key ↔ m.index = m'.index) ∧
    (∀ p, (((messages (L.interleave P ratchets calls)).filter fun m => m.party = p).map Message.key).Nodup) ∧
    (((messages (L.interleave P ratchets calls)).map Message.key).Nodup ↔
      ∀ p ∈ senders calls, ∀ q ∈ senders calls, p = q) := by
  have hlen : ∀ p, (ratchets p).epochSecret.length = epochSecretLen := by
    intro p
    rw [(hepoch p).2.1, secret.length_val]
  have hparty := map_party_messages (L := L) (P := P) hlen calls
  have hkeys : ∀ m ∈ messages (L.interleave P ratchets calls), ∀ m' ∈ messages (L.interleave P ratchets calls),
      m.key = m'.key ↔ m.index = m'.index := fun m hm m' hm' => key_eq_iff hepoch hcount hhkdf hm hm'
  have hown := nodup_keys_party hepoch hkeys
  refine ⟨hparty, hkeys, hown, ?_⟩
  constructor
  · intro hnodup p hp q hq
    -- two senders both start at index zero
    have hsame := List.inj_on_of_nodup_map hnodup (first_mem_messages hepoch hp) (first_mem_messages hepoch hq) rfl
    exact congrArg Message.party hsame
  · intro hone
    rcases hcalls : senders calls with _ | ⟨p, rest⟩
    · rw [hcalls, List.map_eq_nil_iff] at hparty
      rw [hparty]
      exact List.nodup_nil
    · have hall : ∀ m ∈ messages (L.interleave P ratchets calls), m.party = p := by
        intro m hm
        have hsender : m.party ∈ senders calls := hparty ▸ List.mem_map_of_mem hm
        exact hone _ hsender _ (hcalls ▸ List.mem_cons_self)
      have hfilter := hown p
      rwa [List.filter_eq_self.mpr fun m hm => by simp [hall m hm]] at hfilter

end Epoch

end Parties

end RatchetLayer

/-! ### Two parties -/

namespace RatchetExample

open RatchetLayer

inductive Party where
  | alice
  | bob
  deriving DecidableEq

/-- A key derivation that shows the index. -/
def P : Primitives := { StandIn.primitives StandIn.sums [] with hkdf := fun i => StandIn.padTo 32 i.info.reverse }

def ratchet : RatchetState := { epoch := 7, epochSecret := (BytesN.zero 32).val, epochStartedAt := 0 }

theorem sameEpoch : SameEpoch (fun _ : Party => ratchet) 7 (.zero 32) := fun _ => ⟨rfl, rfl, rfl⟩

/-- Alice sends twice; Bob derives the second key first, then the first. -/
def calls : List (Party × RatchetCall) :=
  [(.alice, .nextOutboundKey), (.alice, .nextOutboundKey), (.bob, .messageKey (some 1)), (.bob, .messageKey (some 0))]

theorem hkdf_ne : P.hkdf (GroupRatchet.layer.messageKeyInput (BytesN.zero 32) 7 0)
    ≠ P.hkdf (GroupRatchet.layer.messageKeyInput (BytesN.zero 32) 7 1) := by decide

theorem injOn_hkdf : Set.InjOn P.hkdf
    {GroupRatchet.layer.messageKeyInput (BytesN.zero 32) 7 0,
      GroupRatchet.layer.messageKeyInput (BytesN.zero 32) 7 1} :=
  Set.injOn_pair.mpr fun h => absurd h hkdf_ne

theorem ratchet_runs_example :
    (∃ key, (GroupRatchet.layer.exec P ratchet .nextOutboundKey).1 = .ok (.outbound 0 key) ∧
      (GroupRatchet.layer.exec P (GroupRatchet.layer.ratchetAfter P (fun _ => ratchet) calls .bob)
        (.messageKey (some 0))).1 = .ok (.key key)) ∧
    ((issued (historyOf .alice (GroupRatchet.layer.interleave P (fun _ => ratchet) calls))).map Prod.snd).Nodup := by
  obtain ⟨hsend, -, -, -, hnodup⟩ := @ratchet_runs GroupRatchet.layer P Party _ (fun _ => ratchet) .alice rfl
  constructor
  · obtain ⟨key, hkey, -, hagree⟩ := hsend []
    exact ⟨key, hkey, hagree .bob rfl rfl calls⟩
  · refine hnodup calls (by decide) (injOn_hkdf.mono ?_)
    rintro i ⟨j, hj, rfl⟩
    have hj2 : j < 2 := hj
    interval_cases j
    · exact .inl rfl
    · exact .inr rfl

/-- Alone, Alice sends under two keys. -/
theorem messages_keys_example :
    ((messages (GroupRatchet.layer.interleave P (fun _ => ratchet) calls)).map Message.key).Nodup := by
  have hcount : (senders calls).length < 2 ^ 64 := by decide
  have hone : ∀ p ∈ senders calls, ∀ q ∈ senders calls, p = q := by decide
  refine (messages_keys sameEpoch hcount (injOn_hkdf.mono ?_)).2.2.2.mpr hone
  rintro i ⟨m, hm, rfl⟩
  obtain ⟨j, hj, heq⟩ := (mem_messages sameEpoch).mp hm
  have hj2 : j < 2 := by
    cases hparty : m.party with
    | alice => rwa [hparty] at hj
    | bob =>
      rw [hparty] at hj
      exact absurd hj (Nat.not_lt_zero j)
  rw [heq]
  interval_cases j
  · exact .inl rfl
  · exact .inr rfl

/-- When Alice and Bob both send, their first messages have the same key, in either module. -/
theorem exists_same_key : SameEpoch (fun _ : Party => ratchet) 7 (.zero 32) ∧
    (∃ key, messages (GroupRatchet.layer.interleave P (fun _ => ratchet)
        [(Party.alice, .nextOutboundKey), (Party.bob, .nextOutboundKey)])
      = [⟨.alice, 0, key⟩, ⟨.bob, 0, key⟩]) ∧
    ∃ key, messages (DmRatchet.layer.interleave P (fun _ => ratchet)
        [(Party.alice, .nextOutboundKey), (Party.bob, .nextOutboundKey)])
      = [⟨.alice, 0, key⟩, ⟨.bob, 0, key⟩] := by
  refine ⟨sameEpoch, ?_, ?_⟩
  · exact ⟨_, rfl⟩
  · exact ⟨_, rfl⟩

end RatchetExample
end SkPqc
