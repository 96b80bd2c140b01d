import Mathlib.Data.Set.Function
import SkPqc.Model.AnonQueue
import SkPqc.Proof.Contained

/-!
# Queue addresses and deniable tags

An address that `decode_aqid` accepts splits at its first slash (`ends_decodeAqid`), and its id decodes to 16
bytes exactly when the decoder reads 22 digits in it. One text of each 16 bytes is canonical, the one that
`encode_aqid` writes, and it decodes to them (`decodeAqid_urlsafeText`). The addresses accepted with another one are
the `Noncanonical` ones.

A tag covers the nonce followed by the message, so what it says is where the two meet and no more. The check
converts its arguments where the tagging refuses them: it accepts the tag of what they convert to
(`ConvertedTag`).
-/

namespace SkPqc
namespace AnonQueue

open Wire Runs

/-! ### Addresses -/

/-- The address of a relay and the text of an id. -/
def Address (s relay text : Str) : Prop :=
  s = aqidScheme ++ relay ++ str "/" ++ text ∧ relay ≠ [] ∧ chr '/' ∉ relay

theorem partition_append {sep : CodePoint} {before : Str} (h : sep ∉ before) (after : Str) :
    partition sep (before ++ sep :: after) = (before, [sep], after) := by
  have hbefore : ∀ c ∈ before, (decide (c ≠ sep)) = true := by
    intro c hc
    rw [decide_eq_true_eq]
    rintro rfl
    exact h hc
  have hdrop : (before ++ sep :: after).dropWhile (· ≠ sep) = sep :: after := by
    rw [List.dropWhile_append_of_pos hbefore, List.dropWhile_cons_of_neg (by simp)]
  have htake : (before ++ sep :: after).takeWhile (· ≠ sep) = before := by
    rw [List.takeWhile_append_of_pos hbefore, List.takeWhile_cons_of_neg (by simp), List.append_nil]
  rw [partition, hdrop, htake]

theorem partition_of_notMem {sep : CodePoint} {s : Str} (h : sep ∉ s) : partition sep s = (s, [], []) := by
  have hdrop : s.dropWhile (· ≠ sep) = [] := by
    rw [List.dropWhile_eq_nil_iff]
    intro c hc
    rw [decide_eq_true_eq]
    rintro rfl
    exact h hc
  rw [partition, hdrop]

/-- What is no address is rejected. -/
theorem address_or_error (s : Str) : (∃ relay text, Address s relay text) ∨
    ∃ msg, decodeAqid (.str s) = .error ⟨.anonQueueFormatError, msg⟩ := by
  by_cases hscheme : aqidScheme.isPrefixOf s = true
  · obtain ⟨body, rfl⟩ := List.isPrefixOf_iff_prefix.mp hscheme
    have hbody : (aqidScheme ++ body).drop aqidScheme.length = body := List.drop_left
    by_cases hslash : chr '/' ∈ body
    · obtain ⟨relay, text, rfl, hrelay⟩ := List.eq_append_cons_of_mem hslash
      by_cases hempty : relay = []
      · refine .inr ⟨[.lit "relay must be non-empty"], ?_⟩
        rw [hempty]
        rfl
      · exact .inl ⟨relay, text, by simp [str, List.append_assoc], hempty, hrelay⟩
    · refine .inr ⟨[.lit "address must be 'aqid:<relay>/<id>'"], ?_⟩
      simp only [decodeAqid, hscheme, hbody, partition_of_notMem hslash]
      rfl
  · refine .inr ⟨[.lit "address must start with '", .str aqidScheme, .lit "'"], ?_⟩
    simp only [decodeAqid, hscheme]
    rfl

theorem decodeAqid_of_address {s relay text : Str} (h : Address s relay text) :
    decodeAqid (.str s) = if text = [] then raise .anonQueueFormatError [.lit "id must be non-empty"] else (do
      let senderId ← tryExcept [.exception] (urlsafeB64decodeStr (text ++ padding text)) fun exc =>
        raise .anonQueueFormatError ([.lit "id is not valid base64url: "] ++ exc.msg)
      if senderId.length ≠ queueIdLen then
        raise .anonQueueFormatError
          [.lit "decoded id must be ", .nat queueIdLen, .lit " bytes, got ", .nat senderId.length]
      return (relay, senderId)) := by
  obtain ⟨rfl, hrelay, hslash⟩ := h
  have hcut : aqidScheme ++ relay ++ str "/" ++ text = aqidScheme ++ (relay ++ chr '/' :: text) := by
    simp [str, List.append_assoc]
  have hscheme : aqidScheme.isPrefixOf (aqidScheme ++ (relay ++ chr '/' :: text)) = true :=
    List.isPrefixOf_iff_prefix.mpr (List.prefix_append _ _)
  rw [hcut]
  simp only [decodeAqid, hscheme, List.drop_left, partition_append hslash, hrelay]
  rfl

/-- An address returns its relay, with an id of 16 bytes, or is rejected. -/
theorem ends_decodeAqid {s relay text : Str} (h : Address s relay text) :
    Ends (fun r => r.1 = relay ∧ urlsafeB64decode (text ++ padding text) = some r.2 ∧ r.2.length = queueIdLen)
      (fun e => e.cls = .anonQueueFormatError) (decodeAqid (.str s)) := by
  have hdecode : Ends (fun id => urlsafeB64decode (text ++ padding text) = some id) (Exc.In [.exception])
      (urlsafeB64decodeStr (text ++ padding text)) := by
    refine Ends.ite (fun _ => ?_) fun _ => ends_raise rfl
    exact ends_ofOption (fun _ h => h) rfl
  rw [decodeAqid_of_address h]
  refine Ends.ite (fun _ => ends_raise rfl) fun _ => ?_
  refine Ends.bind (Ends.renamed hdecode fun _ => rfl) fun id hid => ?_
  refine Ends.guard rfl fun hlen => ?_
  exact .ok ⟨rfl, hid, not_ne_iff.mp hlen⟩

theorem decodeAqid_eq_ok {s relay text : Str} {id : Bytes} (h : Address s relay text) (hne : text ≠ [])
    (hdecode : urlsafeB64decode (text ++ padding text) = some id) (hlen : id.length = queueIdLen) :
    decodeAqid (.str s) = .ok (relay, id) := by
  have hascii : (text ++ padding text).all isAscii = true := by
    by_contra hnot
    rw [urlsafeB64decode_eq, if_neg hnot] at hdecode
    cases hdecode
  rw [decodeAqid_of_address h, if_neg hne, urlsafeB64decodeStr, if_pos hascii, hdecode]
  simp only [ofOption_some, tryExcept_ok, ok_bind, hlen, ne_eq, not_true_eq_false, if_false]
  rfl

theorem encodeAqid_eq {relay : Str} (hne : relay ≠ []) (hslash : chr '/' ∉ relay) {senderId : PyVal} {id : Bytes}
    (hid : senderId.data? = some id) (hlen : id.length = queueIdLen) :
    encodeAqid (.str relay) senderId = .ok (aqidScheme ++ relay ++ str "/" ++ urlsafeText id) := by
  simp only [encodeAqid, hne, List.contains_iff_mem, hslash, hid, hlen, if_false, ne_eq, not_true_eq_false]

/-! ### Canonical ids -/

/-- The text of an id as `encode_aqid` writes it: 22 base64url digits, the last without spare bits. -/
structure CanonicalId (text : Str) : Prop where
  length_eq : text.length = 22
  digits : ∀ c ∈ text, c ∈ urlsafeDigits
  last : ∀ c ∈ text.getLast?, c ∈ str "AQgw"

theorem canonicalId_iff (text : Str) :
    CanonicalId text ↔ ∃ id : Bytes, id.length = queueIdLen ∧ urlsafeText id = text := by
  rw [show queueIdLen = 3 * 5 + 1 from rfl, exists_urlsafeText_iff]
  constructor
  · rintro ⟨hlen, hdigits, hlast⟩
    exact ⟨hlen, hdigits, hlast⟩
  · rintro ⟨hlen, hdigits, hlast⟩
    exact ⟨hlen, hdigits, hlast⟩

theorem CanonicalId.padding_eq {text : Str} (h : CanonicalId text) : padding text = List.replicate 2 (chr '=') := by
  rw [padding, h.length_eq]
  rfl

/-- An address of the text of 16 bytes returns them. -/
theorem decodeAqid_urlsafeText {s relay : Str} {id : Bytes} (h : Address s relay (urlsafeText id))
    (hlen : id.length = queueIdLen) : decodeAqid (.str s) = .ok (relay, id) := by
  have hcanonical : CanonicalId (urlsafeText id) := (canonicalId_iff _).mpr ⟨id, hlen, rfl⟩
  have hne : urlsafeText id ≠ [] := by
    intro hempty
    have h22 := hcanonical.length_eq
    rw [hempty] at h22
    cases h22
  have hdecode : urlsafeB64decode (urlsafeText id ++ padding (urlsafeText id)) = some id := by
    rw [hcanonical.padding_eq]
    exact @urlsafeB64decode_urlsafeText id 5 hlen
  exact decodeAqid_eq_ok h hne hdecode hlen

/-- The address of a relay and 16 bytes has digits only after its first slash, and decodes to both. -/
theorem decodeAqid_encodeAqid {relay : Str} (hne : relay ≠ []) (hslash : chr '/' ∉ relay) {senderId : PyVal}
    {id : Bytes} (hid : senderId.data? = some id) (hlen : id.length = 16) :
    ∃ address text, encodeAqid (.str relay) senderId = .ok address ∧
      aqidScheme.isPrefixOf address = true ∧
      partition (chr '/') (address.drop aqidScheme.length) = (relay, str "/", text) ∧
      (∀ c ∈ text, c ∉ str "=+/") ∧
      decodeAqid (.str address) = .ok (relay, id) := by
  have hcut : aqidScheme ++ relay ++ str "/" ++ urlsafeText id
      = aqidScheme ++ (relay ++ chr '/' :: urlsafeText id) := by
    simp [str, List.append_assoc]
  refine ⟨_, urlsafeText id, encodeAqid_eq hne hslash hid hlen, ?_, ?_, ?_,
    decodeAqid_urlsafeText ⟨rfl, hne, hslash⟩ hlen⟩
  · rw [hcut]
    exact List.isPrefixOf_iff_prefix.mpr (List.prefix_append _ _)
  · rw [hcut, List.drop_left, partition_append hslash]
    rfl
  · intro c hc
    have hcanonical : CanonicalId (urlsafeText id) := (canonicalId_iff _).mpr ⟨id, hlen, rfl⟩
    have hdigits : urlsafeDigits.all (fun c => !(str "=+/").contains c) = true := by decide
    simpa using List.all_eq_true.mp hdigits c (hcanonical.digits c hc)

/-- A relay that is the scheme itself. -/
theorem decodeAqid_encodeAqid_run :
    ∃ address text, encodeAqid (.str (str "aqid:")) (.bytearray (BytesN.zero 16)) = .ok address ∧
      aqidScheme.isPrefixOf address = true ∧
      partition (chr '/') (address.drop aqidScheme.length) = (str "aqid:", str "/", text) ∧
      (∀ c ∈ text, c ∉ str "=+/") ∧
      decodeAqid (.str address) = .ok (str "aqid:", (BytesN.zero 16).val) :=
  decodeAqid_encodeAqid (by decide) (by decide) rfl rfl

/-- The ASCII ids in which the decoder reads 22 digits, with the padding that the code adds. -/
def Accepted (text : Str) : Prop := text.all isAscii = true ∧ digitsRead 0 0 (text ++ padding text) = some 22

theorem accepted_iff (text : Str) : Accepted text ↔
    ∃ id, urlsafeB64decode (text ++ padding text) = some id ∧ id.length = queueIdLen := by
  have hpad : (padding text).all isAscii = true := by
    rw [padding, List.all_replicate]
    simp [show isAscii (chr '=') = true by decide]
  rw [show queueIdLen = 3 * 5 + 1 from rfl, urlsafeB64decode_length_iff, List.all_append, hpad, Bool.and_true]
  rfl

/-- The addresses with an accepted id that is not canonical. -/
def Noncanonical (s : Str) : Prop := ∃ relay text, Address s relay text ∧ Accepted text ∧ ¬CanonicalId text

theorem Accepted.ne_nil {text : Str} (h : Accepted text) : text ≠ [] := by
  rintro rfl
  exact absurd h.2 (by decide)

/-- A string is decoded to what encodes to it, or rejected, exactly when it is not a noncanonical address. -/
theorem decodeAqid_canonical_iff (s : Str) :
    ((∃ relay id, decodeAqid (.str s) = .ok (relay, id) ∧ encodeAqid (.str relay) (.bytes id) = .ok s) ∨
        ∃ msg, decodeAqid (.str s) = .error ⟨.anonQueueFormatError, msg⟩) ↔ ¬Noncanonical s := by
  constructor
  · rintro hproperty ⟨relay, text, haddress, haccepted, hnot⟩
    obtain ⟨id, hdecode, hlen⟩ := (accepted_iff text).mp haccepted
    have hreturns := decodeAqid_eq_ok haddress haccepted.ne_nil hdecode hlen
    rw [hreturns] at hproperty
    rcases hproperty with ⟨relay', id', hok, hencode⟩ | ⟨msg, herror⟩
    · cases hok
      obtain ⟨rfl, hrelay, hslash⟩ := haddress
      rw [encodeAqid_eq hrelay hslash (PyVal.data?_bytes id) hlen] at hencode
      have htext := List.append_cancel_left (Except.ok.inj hencode)
      exact hnot ((canonicalId_iff text).mpr ⟨id, hlen, htext⟩)
    · cases herror
  · intro hnot
    rcases address_or_error s with ⟨relay, text, haddress⟩ | herror
    · by_cases haccepted : Accepted text
      · have hcanonical : CanonicalId text := by
          by_contra hother
          exact hnot ⟨relay, text, haddress, haccepted, hother⟩
        obtain ⟨id, hlen, rfl⟩ := (canonicalId_iff text).mp hcanonical
        refine .inl ⟨relay, id, decodeAqid_urlsafeText haddress hlen, ?_⟩
        rw [encodeAqid_eq haddress.2.1 haddress.2.2 (PyVal.data?_bytes id) hlen, haddress.1]
      · have hends := ends_decodeAqid haddress
        cases hresult : decodeAqid (.str s) with
        | ok r =>
          rw [hresult] at hends
          exact absurd ((accepted_iff text).mpr ⟨r.2, hends.of_ok.2⟩) haccepted
        | error e =>
          rw [hresult] at hends
          obtain ⟨cls, msg⟩ := e
          obtain rfl : cls = .anonQueueFormatError := hends.of_error
          exact .inr ⟨msg, rfl⟩
    · exact .inr herror

/-- Three addresses of the zero id: a spare bit set, stray characters, a padding. All are accepted, and none is what
the id encodes to. -/
theorem exists_noncanonical_decode :
    decodeAqid (.str (str "aqid:r/AAAAAAAAAAAAAAAAAAAAAB")) = .ok (str "r", (BytesN.zero 16).val) ∧
      decodeAqid (.str (str "aqid:r/AAAAAAAAAA!!!!AAAAAAAAAAAA")) = .ok (str "r", (BytesN.zero 16).val) ∧
      decodeAqid (.str (str "aqid:r/AAAAAAAAAAAAAAAAAAAAAA==")) = .ok (str "r", (BytesN.zero 16).val) ∧
      encodeAqid (.str (str "r")) (.bytes (BytesN.zero 16)) = .ok (str "aqid:r/AAAAAAAAAAAAAAAAAAAAAA") ∧
      str "aqid:r/AAAAAAAAAAAAAAAAAAAAAA" ∉ [str "aqid:r/AAAAAAAAAAAAAAAAAAAAAB",
        str "aqid:r/AAAAAAAAAA!!!!AAAAAAAAAAAA", str "aqid:r/AAAAAAAAAAAAAAAAAAAAAA=="] := by
  have hencode : encodeAqid (.str (str "r")) (.bytes (BytesN.zero 16))
      = .ok (str "aqid:r/AAAAAAAAAAAAAAAAAAAAAA") := rfl
  exact ⟨rfl, rfl, rfl, hencode, by decide⟩

/-! ### Arguments of any type -/

theorem expectBytes_eq_ok {text : String} {value : PyVal} {b : Bytes} :
    expectBytes text value = .ok b ↔ value.data? = some b := by
  unfold expectBytes
  cases value.data? with
  | none => simp [raise]
  | some data => simp

theorem authTag_eq_ok {hmac : Hmac} {secret message nonce : PyVal} {tag : BytesN 32} :
    authTag hmac secret message nonce = .ok tag ↔
      ∃ s m n, secret.data? = some s ∧ message.data? = some m ∧ nonce.data? = some n ∧ hmac s (n ++ m) = tag := by
  simp only [authTag, bind_eq_ok, expectBytes_eq_ok]
  constructor
  · rintro ⟨s, hs, m, hm, n, hn, hreturn⟩
    exact ⟨s, m, n, hs, hm, hn, Except.ok.inj hreturn⟩
  · rintro ⟨s, m, n, hs, hm, hn, rfl⟩
    exact ⟨s, hs, m, hm, n, hn, rfl⟩

/-- A check of a tag returns, whatever its arguments. -/
theorem exists_verifyTag (hmac : Hmac) (secret message nonce tag : PyVal) :
    ∃ accepted, verifyTag hmac secret message nonce tag = .ok accepted := by
  unfold verifyTag
  split
  · exact ⟨false, rfl⟩
  · exact exists_tryExcept_default _ false

/-- A tag is accepted when it is the one of what the arguments convert to. -/
theorem verifyTag_eq_true {hmac : Hmac} {secret message nonce tag : PyVal} :
    verifyTag hmac secret message nonce tag = .ok true ↔
      ∃ s m n, secret.toBytes = .ok s ∧ message.toBytes = .ok m ∧ nonce.toBytes = .ok n ∧
        tag.data? = some (hmac s (n ++ m)).val := by
  unfold verifyTag
  split
  · rename_i hnone
    constructor
    · intro h
      cases h
    · rintro ⟨_, _, _, -, -, -, htag⟩
      cases hnone.symm.trans htag
  · rename_i t htag
    refine (tryExcept_default_eq_ok Bool.false_ne_true).trans ?_
    simp only [bind_eq_ok]
    constructor
    · rintro ⟨s, hs, n, hn, m, hm, hcompare⟩
      refine ⟨s, m, n, hs, hm, hn, htag.trans (congrArg some ?_)⟩
      by_contra hne
      rw [if_neg (Ne.symm hne)] at hcompare
      cases hcompare
    · rintro ⟨s, m, n, hs, hm, hn, hsame⟩
      refine ⟨s, hs, n, hn, m, hm, ?_⟩
      rw [if_pos (Option.some.inj (hsame.symm.trans htag))]
      rfl

/-- The tag that `auth_tag` returns is accepted. -/
theorem verifyTag_of_authTag {hmac : Hmac} {secret message nonce tag : PyVal} {t : BytesN 32}
    (hreturns : authTag hmac secret message nonce = .ok t) (htag : tag.data? = some t.val) :
    verifyTag hmac secret message nonce tag = .ok true := by
  obtain ⟨s, m, n, hs, hm, hn, rfl⟩ := authTag_eq_ok.mp hreturns
  exact verifyTag_eq_true.mpr ⟨s, m, n, PyVal.toBytes_of_data? hs, PyVal.toBytes_of_data? hm,
    PyVal.toBytes_of_data? hn, htag⟩

/-- Of a tag, a check says what `auth_tag` says: it accepts the tag that `auth_tag` returns and no other, and refuses
it where `auth_tag` rejects an argument. -/
def Agrees (hmac : Hmac) (secret message nonce tag : PyVal) : Prop :=
  (verifyTag hmac secret message nonce tag = .ok true ↔
      ∃ t : BytesN 32, authTag hmac secret message nonce = .ok t ∧ tag.data? = some t.val) ∧
    ∀ msg, authTag hmac secret message nonce = .error ⟨.anonQueueFormatError, msg⟩ →
      verifyTag hmac secret message nonce tag = .ok false

/-- A tag of what the arguments convert to, where one of them is no `bytes` or `bytearray`. -/
def ConvertedTag (hmac : Hmac) (secret message nonce tag : PyVal) : Prop :=
  ∃ s m n, secret.toBytes = .ok s ∧ message.toBytes = .ok m ∧ nonce.toBytes = .ok n ∧
    (secret.data? = none ∨ message.data? = none ∨ nonce.data? = none) ∧ tag.data? = some (hmac s (n ++ m)).val

theorem agrees_iff (hmac : Hmac) (secret message nonce tag : PyVal) :
    Agrees hmac secret message nonce tag ↔ ¬ConvertedTag hmac secret message nonce tag := by
  constructor
  · rintro ⟨hagrees, -⟩ ⟨s, m, n, hs, hm, hn, hother, htag⟩
    obtain ⟨t, hreturns, -⟩ := hagrees.mp (verifyTag_eq_true.mpr ⟨s, m, n, hs, hm, hn, htag⟩)
    obtain ⟨s', m', n', hs', hm', hn', -⟩ := authTag_eq_ok.mp hreturns
    rcases hother with h | h | h
    · cases h.symm.trans hs'
    · cases h.symm.trans hm'
    · cases h.symm.trans hn'
  · intro hnot
    have hagrees : verifyTag hmac secret message nonce tag = .ok true ↔
        ∃ t : BytesN 32, authTag hmac secret message nonce = .ok t ∧ tag.data? = some t.val := by
      constructor
      · intro haccepted
        obtain ⟨s, m, n, hs, hm, hn, htag⟩ := verifyTag_eq_true.mp haccepted
        refine ⟨_, authTag_eq_ok.mpr ⟨s, m, n, PyVal.data?_of_toBytes hs ?_, PyVal.data?_of_toBytes hm ?_,
          PyVal.data?_of_toBytes hn ?_, rfl⟩, htag⟩
        · exact fun h => hnot ⟨s, m, n, hs, hm, hn, .inl h, htag⟩
        · exact fun h => hnot ⟨s, m, n, hs, hm, hn, .inr (.inl h), htag⟩
        · exact fun h => hnot ⟨s, m, n, hs, hm, hn, .inr (.inr h), htag⟩
      · rintro ⟨t, hreturns, htag⟩
        exact verifyTag_of_authTag hreturns htag
    refine ⟨hagrees, fun msg hrejects => ?_⟩
    obtain ⟨accepted, haccepted⟩ := exists_verifyTag hmac secret message nonce tag
    cases accepted with
    | false => exact haccepted
    | true =>
      obtain ⟨t, hreturns, -⟩ := hagrees.mp haccepted
      cases hrejects.symm.trans hreturns

/-- A `bytes` or a `bytearray`. -/
def BytesLike (value : PyVal) : Prop := value.data? ≠ none

/-- `bytes(value)` returns. -/
def Converts (value : PyVal) : Prop := ∃ b, value.toBytes = .ok b

/-- On arguments of any type a check agrees with `auth_tag` about every tag exactly when the arguments are all
bytes-like, or one of them does not even convert. Elsewhere it agrees about every tag but the one of the converted
arguments. -/
theorem verifyTag_agrees_iff (hmac : Hmac) (secret message nonce : PyVal) :
    ((∀ tag, Agrees hmac secret message nonce tag) ↔
      (BytesLike secret ∧ BytesLike message ∧ BytesLike nonce) ∨
        ¬(Converts secret ∧ Converts message ∧ Converts nonce)) ∧
    ∀ tag, Agrees hmac secret message nonce tag ↔ ¬ConvertedTag hmac secret message nonce tag := by
  refine ⟨?_, agrees_iff hmac secret message nonce⟩
  constructor
  · intro hagrees
    by_contra hnot
    obtain ⟨hother, hconvert⟩ := not_or.mp hnot
    obtain ⟨⟨s, hs⟩, ⟨m, hm⟩, n, hn⟩ := not_not.mp hconvert
    have htag := hagrees (.bytes (hmac s (n ++ m)).val)
    apply (agrees_iff ..).mp htag
    refine ⟨s, m, n, hs, hm, hn, ?_, rfl⟩
    simpa only [BytesLike, ne_eq, ← not_or, not_not] using hother
  · rintro (⟨hsecret, hmessage, hnonce⟩ | hconvert) tag
    all_goals
      apply (agrees_iff ..).mpr
      rintro ⟨s, m, n, hs, hm, hn, hother, -⟩
    · rcases hother with h | h | h
      · exact hsecret h
      · exact hmessage h
      · exact hnonce h
    · exact hconvert ⟨⟨s, hs⟩, ⟨m, hm⟩, n, hn⟩

/-! ### Tags -/

theorem authTag_bytes (hmac : Hmac) (secret message nonce : Bytes) :
    authTag hmac (.bytes secret) (.bytes message) (.bytes nonce) = .ok (hmac secret (nonce ++ message)) := rfl

/-- On byte strings a verification compares the tag with the one of the nonce and the message. -/
theorem verifyTag_bytes_eq_true {hmac : Hmac} {secret message nonce tag : Bytes} :
    verifyTag hmac (.bytes secret) (.bytes message) (.bytes nonce) (.bytes tag) = .ok true ↔
      (hmac secret (nonce ++ message)).val = tag := by
  rw [verifyTag_eq_true]
  constructor
  · rintro ⟨_, _, _, ⟨⟩, ⟨⟩, ⟨⟩, htag⟩
    exact (Option.some.inj htag).symm
  · rintro rfl
    exact ⟨secret, message, nonce, rfl, rfl, rfl, rfl⟩

/-- A tag is accepted for its own nonce and message only, exactly when the nonces have one length or the two
concatenations differ. -/
theorem verifyTag_authTag_iff (hmac : Hmac) (secret nonce message nonce' message' : Bytes)
    (hhmac : Set.InjOn (hmac secret) {nonce ++ message, nonce' ++ message'}) :
    ∃ tag, authTag hmac (.bytes secret) (.bytes message) (.bytes nonce) = .ok tag ∧
      ((verifyTag hmac (.bytes secret) (.bytes message') (.bytes nonce') (.bytes tag) = .ok true ↔
          nonce' = nonce ∧ message' = message) ↔
        nonce'.length = nonce.length ∨ nonce' ++ message' ≠ nonce ++ message) := by
  refine ⟨_, authTag_bytes hmac secret message nonce, ?_⟩
  have haccepted : verifyTag hmac (.bytes secret) (.bytes message') (.bytes nonce')
      (.bytes (hmac secret (nonce ++ message))) = .ok true ↔ nonce' ++ message' = nonce ++ message := by
    rw [verifyTag_bytes_eq_true]
    constructor
    · intro h
      exact hhmac (.inr rfl) (.inl rfl) (BytesN.ext h)
    · intro h
      rw [h]
  rw [haccepted]
  constructor
  · intro h
    by_cases hsame : nonce' ++ message' = nonce ++ message
    · exact .inl (congrArg List.length (h.mp hsame).1)
    · exact .inr hsame
  · intro h
    constructor
    · intro hsame
      rcases h with hlen | hne
      · exact List.append_inj hsame hlen
      · exact absurd hsame hne
    · rintro ⟨rfl, rfl⟩
      rfl

namespace TagExample

/-- A MAC that shows its data. -/
def hmac : Hmac := fun _ data => ⟨(data ++ List.replicate 32 0).take 32, by simp⟩

/-- Another nonce of the same length is rejected. -/
theorem verifyTag_authTag_run : ∃ tag, authTag hmac (.bytes []) (.bytes (ascii "c")) (.bytes (ascii "ab")) = .ok tag ∧
    ¬verifyTag hmac (.bytes []) (.bytes (ascii "c")) (.bytes (ascii "ax")) (.bytes tag) = .ok true := by
  have hinj : Set.InjOn (hmac []) {ascii "ab" ++ ascii "c", ascii "ax" ++ ascii "c"} := by
    have hne : hmac [] (ascii "ab" ++ ascii "c") ≠ hmac [] (ascii "ax" ++ ascii "c") := by decide
    exact Set.injOn_pair.mpr fun h => absurd h hne
  obtain ⟨tag, htag, hiff⟩ := verifyTag_authTag_iff hmac [] (ascii "ab") (ascii "c") (ascii "ax") (ascii "c") hinj
  refine ⟨tag, htag, fun haccepted => ?_⟩
  have hsame := (hiff.mpr (.inl rfl)).mp haccepted
  exact absurd hsame.1 (by decide)

/-- A byte moved from the nonce to the message leaves the tag valid. -/
theorem exists_shifted_tag : Set.InjOn (hmac []) {ascii "ab" ++ ascii "c", ascii "a" ++ ascii "bc"} ∧
    ∃ tag, authTag hmac (.bytes []) (.bytes (ascii "c")) (.bytes (ascii "ab")) = .ok tag ∧
      verifyTag hmac (.bytes []) (.bytes (ascii "bc")) (.bytes (ascii "a")) (.bytes tag) = .ok true ∧
      ascii "a" ≠ ascii "ab" ∧ ascii "bc" ≠ ascii "c" := by
  have hsame : ascii "a" ++ ascii "bc" = ascii "ab" ++ ascii "c" := by decide
  refine ⟨Set.injOn_pair.mpr fun _ => hsame.symm, _, rfl, ?_, by decide, by decide⟩
  rw [verifyTag_bytes_eq_true, hsame]

/-- `auth_tag` rejects the number 3 for a secret; the check takes it for three zero bytes and accepts their tag. -/
theorem exists_converted_tag :
    authTag hmac (.int 3) (.bytes (ascii "c")) (.bytes (ascii "ab"))
        = .error ⟨.anonQueueFormatError, [.lit "secret must be bytes"]⟩ ∧
      verifyTag hmac (.int 3) (.bytes (ascii "c")) (.bytes (ascii "ab")) (.bytes (hmac [0, 0, 0] (ascii "abc")))
        = .ok true :=
  ⟨rfl, verifyTag_eq_true.mpr ⟨[0, 0, 0], ascii "c", ascii "ab", rfl, rfl, rfl, rfl⟩⟩

end TagExample

end AnonQueue
end SkPqc
