import WallyScript.Basic

/-!
# Confidential commitment fields

The Elements extension of `src/script.c` (lines 222–326): an asset, value or nonce field of a
confidential transaction is a tagged union, told apart by its first byte alone. The byte `0`
is the null field, one byte long; the byte `WALLY_TX_ASSET_CT_EXPLICIT_PREFIX` starts an
explicit field, 9 bytes for a value (the prefix and an 8-byte amount) and 33 for an asset tag
or a nonce; each kind has two prefixes of its own for a blinded field of 33 bytes.

The source reads these fields in two ways. `get_commitment_len`, through
`confidential_{asset,value,nonce}_length_from_bytes`, answers the field's length against the
kind's own prefixes and `0` for an invalid serialisation. The varint forms
`confidential_{asset,value,nonce}_varint_from_bytes` stand in for `varint_from_bytes` in generic
length-prefixed readers: they return a count and store a length through `v`, and know all six
blinded prefixes. `confidential_value_to_bytes` writes a value field, an empty one as the null
byte.

`Commitment k` is what a field of kind `k` is, each body carrying its length, and
`Commitment.toBytes` its serialisation. The results are

* `confidential_length_exact`: the length form accepts a buffer exactly when it begins with a
  well-formed field of its kind, and then answers that field's length;
* `confidential_varint_form`: the varint form returns the same count on every well-formed
  field, with the body's length stored through `v`, and on a byte the length form rejects it
  reads a blinded field of another kind or a null field, so that it never reports an invalid
  serialisation;
* `confidential_value_round_trip`: what `confidential_value_to_bytes` writes for a value field,
  both value readers read back with the count it returned.

The prefix bytes and lengths are those of `wally_transaction.h`, which is not part of the
repository. The functions have no length argument and read `bytes[0]` only; as for
`varint_length_from_bytes`, the model reads it as `bytes.getD 0 0`.
-/

namespace WallyScript

/-! ### The header's prefixes and lengths -/

/-- `WALLY_TX_ASSET_CT_EXPLICIT_PREFIX`. -/
def wallyTxAssetCtExplicitPrefix : UInt8 := 1

/-- `WALLY_TX_ASSET_CT_VALUE_PREFIX_A`. -/
def wallyTxAssetCtValuePrefixA : UInt8 := 8

/-- `WALLY_TX_ASSET_CT_VALUE_PREFIX_B`. -/
def wallyTxAssetCtValuePrefixB : UInt8 := 9

/-- `WALLY_TX_ASSET_CT_ASSET_PREFIX_A`. -/
def wallyTxAssetCtAssetPrefixA : UInt8 := 10

/-- `WALLY_TX_ASSET_CT_ASSET_PREFIX_B`. -/
def wallyTxAssetCtAssetPrefixB : UInt8 := 11

/-- `WALLY_TX_ASSET_CT_NONCE_PREFIX_A`. -/
def wallyTxAssetCtNoncePrefixA : UInt8 := 2

/-- `WALLY_TX_ASSET_CT_NONCE_PREFIX_B`. -/
def wallyTxAssetCtNoncePrefixB : UInt8 := 3

/-- `WALLY_TX_ASSET_CT_LEN`: a prefix and 32 bytes. -/
def wallyTxAssetCtLen : Nat := 33

/-- `WALLY_TX_ASSET_CT_VALUE_UNBLIND_LEN`: the explicit prefix and an 8-byte amount. -/
def wallyTxAssetCtValueUnblindLen : Nat := 9

/-! ### The source's readers and writer -/

/-- `get_commitment_len`: the length of the field at `bytes` against the blinded prefixes
`prefixA` and `prefixB`, or `0` for an invalid serialisation. -/
def getCommitmentLen (bytes : Bytes) (prefixA prefixB : UInt8) : Nat :=
  let b := bytes.getD 0 0
  if b = 0 then 1
  else if b = wallyTxAssetCtExplicitPrefix then
    if prefixA = wallyTxAssetCtValuePrefixA then wallyTxAssetCtValueUnblindLen
    else wallyTxAssetCtLen
  else if b = prefixA ∨ b = prefixB then wallyTxAssetCtLen
  else 0

/-- `confidential_commitment_varint_from_bytes`: the value it stores through `v`, and the count
it returns. -/
def confidentialCommitmentVarintFromBytes (bytes : Bytes) (ctValue : Bool) : UInt64 × Nat :=
  let b := bytes.getD 0 0
  if b = wallyTxAssetCtExplicitPrefix then
    let v := if ctValue then wallyTxAssetCtValueUnblindLen else wallyTxAssetCtLen
    (UInt64.ofNat v, v)
  else if b = wallyTxAssetCtValuePrefixA ∨ b = wallyTxAssetCtValuePrefixB ∨
      b = wallyTxAssetCtAssetPrefixA ∨ b = wallyTxAssetCtAssetPrefixB ∨
      b = wallyTxAssetCtNoncePrefixA ∨ b = wallyTxAssetCtNoncePrefixB then
    (UInt64.ofNat wallyTxAssetCtLen, wallyTxAssetCtLen)
  else (0, 1)

/-- `confidential_asset_length_from_bytes`. -/
def confidentialAssetLengthFromBytes (bytes : Bytes) : Nat :=
  getCommitmentLen bytes wallyTxAssetCtAssetPrefixA wallyTxAssetCtAssetPrefixB

/-- `confidential_value_length_from_bytes`. -/
def confidentialValueLengthFromBytes (bytes : Bytes) : Nat :=
  getCommitmentLen bytes wallyTxAssetCtValuePrefixA wallyTxAssetCtValuePrefixB

/-- `confidential_nonce_length_from_bytes`. -/
def confidentialNonceLengthFromBytes (bytes : Bytes) : Nat :=
  getCommitmentLen bytes wallyTxAssetCtNoncePrefixA wallyTxAssetCtNoncePrefixB

/-- `confidential_asset_varint_from_bytes`. -/
def confidentialAssetVarintFromBytes (bytes : Bytes) : UInt64 × Nat :=
  confidentialCommitmentVarintFromBytes bytes false

/-- `confidential_value_varint_from_bytes`. -/
def confidentialValueVarintFromBytes (bytes : Bytes) : UInt64 × Nat :=
  confidentialCommitmentVarintFromBytes bytes true

/-- `confidential_nonce_varint_from_bytes`. -/
def confidentialNonceVarintFromBytes (bytes : Bytes) : UInt64 × Nat :=
  confidentialCommitmentVarintFromBytes bytes false

/-- `confidential_value_to_bytes`: the buffer afterwards, and the count returned. An empty value
is written as the null byte. -/
def confidentialValueToBytes (bytes out : Bytes) : Bytes × Nat :=
  if bytes = [] then (out.write 0 [0], 1) else (out.write 0 bytes, bytes.length)

/-! ### What a field is -/

/-- The three kinds of confidential field. -/
inductive CommitmentKind
  | asset
  | value
  | nonce
  deriving DecidableEq, Repr

namespace CommitmentKind

/-- The first blinded prefix of a kind. -/
def prefixA : CommitmentKind → UInt8
  | asset => wallyTxAssetCtAssetPrefixA
  | value => wallyTxAssetCtValuePrefixA
  | nonce => wallyTxAssetCtNoncePrefixA

/-- The second blinded prefix of a kind. -/
def prefixB : CommitmentKind → UInt8
  | asset => wallyTxAssetCtAssetPrefixB
  | value => wallyTxAssetCtValuePrefixB
  | nonce => wallyTxAssetCtNoncePrefixB

/-- The body of an explicit field: an 8-byte amount, or a 32-byte asset tag or nonce. -/
def explicitLen : CommitmentKind → Nat
  | value => 8
  | _ => 32

/-- The source's length form for a kind. -/
def lengthFromBytes : CommitmentKind → Bytes → Nat
  | asset => confidentialAssetLengthFromBytes
  | value => confidentialValueLengthFromBytes
  | nonce => confidentialNonceLengthFromBytes

/-- The source's varint form for a kind. -/
def varintFromBytes : CommitmentKind → Bytes → UInt64 × Nat
  | asset => confidentialAssetVarintFromBytes
  | value => confidentialValueVarintFromBytes
  | nonce => confidentialNonceVarintFromBytes

theorem lengthFromBytes_eq (k : CommitmentKind) (bytes : Bytes) :
    k.lengthFromBytes bytes = getCommitmentLen bytes k.prefixA k.prefixB := by
  cases k <;> rfl

theorem varintFromBytes_eq (k : CommitmentKind) (bytes : Bytes) :
    k.varintFromBytes bytes = confidentialCommitmentVarintFromBytes bytes (k = value) := by
  cases k <;> rfl

end CommitmentKind

/-- The six blinded prefixes, of all three kinds. -/
def blindedPrefixes : List UInt8 :=
  [wallyTxAssetCtValuePrefixA, wallyTxAssetCtValuePrefixB, wallyTxAssetCtAssetPrefixA,
    wallyTxAssetCtAssetPrefixB, wallyTxAssetCtNoncePrefixA, wallyTxAssetCtNoncePrefixB]

/-- A confidential field of kind `k`: the null field, an explicit one, or a blinded one behind
the kind's first or second prefix. Every body has the length its form takes. -/
inductive Commitment (k : CommitmentKind)
  | null
  | explicit (body : Bytes) (h : body.length = k.explicitLen)
  | blinded (second : Bool) (body : Bytes) (h : body.length = 32)

namespace Commitment

variable {k : CommitmentKind}

/-- The first byte of a field. -/
def tag : Commitment k → UInt8
  | null => 0
  | explicit _ _ => wallyTxAssetCtExplicitPrefix
  | blinded second _ _ => if second then k.prefixB else k.prefixA

/-- The bytes after the first. -/
def body : Commitment k → Bytes
  | null => []
  | explicit body _ => body
  | blinded _ body _ => body

/-- The serialisation of a field. -/
def toBytes (c : Commitment k) : Bytes := c.tag :: c.body

/-- What a caller hands `confidential_value_to_bytes`: nothing for the null field, the field
otherwise. -/
def payload (c : Commitment k) : Bytes :=
  if c.tag = 0 then [] else c.toBytes

end Commitment

/-! ### The length form -/

/-- The first byte of a blinded field is neither the null byte nor the explicit prefix, and it
is one of the six blinded prefixes. -/
theorem blinded_tag (k : CommitmentKind) (second : Bool) :
    (if second then k.prefixB else k.prefixA) ≠ 0 ∧
      (if second then k.prefixB else k.prefixA) ≠ wallyTxAssetCtExplicitPrefix ∧
      (if second then k.prefixB else k.prefixA) ∈ blindedPrefixes := by
  cases k <;> cases second <;> decide

/-- The explicit length `get_commitment_len` answers is the kind's. -/
theorem explicitLen_succ (k : CommitmentKind) :
    (if k.prefixA = wallyTxAssetCtValuePrefixA then wallyTxAssetCtValueUnblindLen
      else wallyTxAssetCtLen) = k.explicitLen + 1 := by
  cases k <;> rfl

/-- The length form on the first byte of a field: its length, in each form. -/
theorem getCommitmentLen_tag (k : CommitmentKind) (c : Commitment k) (rest : Bytes) :
    k.lengthFromBytes (c.tag :: rest) = (c.toBytes).length := by
  rw [CommitmentKind.lengthFromBytes_eq]
  cases c with
  | null => rfl
  | explicit body h =>
    simp only [getCommitmentLen, Commitment.tag, Commitment.toBytes, Commitment.body,
      List.getD_cons_zero, List.length_cons, h, explicitLen_succ]
    rfl
  | blinded second body h =>
    obtain ⟨h0, h1, -⟩ := blinded_tag k second
    simp only [getCommitmentLen, Commitment.tag, Commitment.toBytes, Commitment.body,
      List.getD_cons_zero, List.length_cons, h, h0, h1, if_false]
    cases second <;> simp [wallyTxAssetCtLen]

/-- A byte the length form accepts starts a field of that length: with enough bytes behind it,
one of each form. -/
theorem exists_commitment (k : CommitmentKind) {b : UInt8} {tail : Bytes}
    (h : 0 < k.lengthFromBytes (b :: tail)) (hl : k.lengthFromBytes (b :: tail) ≤ tail.length + 1) :
    ∃ c : Commitment k, c.tag = b ∧ c.body = tail.take (k.lengthFromBytes (b :: tail) - 1) := by
  rw [CommitmentKind.lengthFromBytes_eq] at h hl ⊢
  simp only [getCommitmentLen, List.getD_cons_zero, explicitLen_succ] at h hl ⊢
  split_ifs at h hl ⊢ with h0 h1 hp
  · exact ⟨.null, h0.symm, rfl⟩
  · exact ⟨.explicit (tail.take _) (by simp; omega), h1.symm, rfl⟩
  · rcases hp with rfl | rfl
    · exact ⟨.blinded false (tail.take 32) (by simp [wallyTxAssetCtLen] at hl ⊢; omega), rfl, rfl⟩
    · exact ⟨.blinded true (tail.take 32) (by simp [wallyTxAssetCtLen] at hl ⊢; omega), rfl, rfl⟩
  · omega

/-- The length form on a field, whatever follows it, is the field's length. -/
theorem lengthFromBytes_toBytes (k : CommitmentKind) (c : Commitment k) (rest : Bytes) :
    k.lengthFromBytes (c.toBytes ++ rest) = c.toBytes.length :=
  getCommitmentLen_tag k c (c.body ++ rest)

/-- **The length form is exact.** On every buffer, `get_commitment_len` with a kind's prefixes
answers a length `n` that the buffer holds exactly when the buffer begins with a well-formed
field of that kind, of length `n`. -/
theorem confidential_length_exact (k : CommitmentKind) (bytes : Bytes) (n : Nat) :
    (k.lengthFromBytes bytes = n ∧ 0 < n ∧ n ≤ bytes.length) ↔
      ∃ (c : Commitment k) (rest : Bytes), bytes = c.toBytes ++ rest ∧ c.toBytes.length = n := by
  constructor
  · rintro ⟨rfl, hpos, hle⟩
    obtain _ | ⟨b, tail⟩ := bytes
    · simp at hle; omega
    simp only [List.length_cons] at hle
    obtain ⟨c, rfl, hbody⟩ := exists_commitment k hpos hle
    refine ⟨c, tail.drop (k.lengthFromBytes (c.tag :: tail) - 1), ?_, (getCommitmentLen_tag k c tail).symm⟩
    rw [Commitment.toBytes, List.cons_append, hbody, List.take_append_drop]
  · rintro ⟨c, rest, rfl, rfl⟩
    exact ⟨lengthFromBytes_toBytes k c rest, by simp [Commitment.toBytes], by simp⟩

/-! ### The varint form -/

/-- The six blinded prefixes are the varint form's case labels. -/
theorem mem_blindedPrefixes (b : UInt8) :
    b ∈ blindedPrefixes ↔ b = wallyTxAssetCtValuePrefixA ∨ b = wallyTxAssetCtValuePrefixB ∨
      b = wallyTxAssetCtAssetPrefixA ∨ b = wallyTxAssetCtAssetPrefixB ∨
      b = wallyTxAssetCtNoncePrefixA ∨ b = wallyTxAssetCtNoncePrefixB := by
  simp [blindedPrefixes]

/-- On a field, the varint form counts the field's bytes and stores the length of what a caller
would hand `confidential_value_to_bytes` for it: `0` for the null field. -/
theorem varintFromBytes_toBytes (k : CommitmentKind) (c : Commitment k) (rest : Bytes) :
    k.varintFromBytes (c.toBytes ++ rest) = (UInt64.ofNat c.payload.length, c.toBytes.length) := by
  rw [CommitmentKind.varintFromBytes_eq]
  cases c with
  | null => rfl
  | explicit body h =>
    have hE0 : wallyTxAssetCtExplicitPrefix ≠ 0 := by decide
    simp only [confidentialCommitmentVarintFromBytes, Commitment.payload, Commitment.tag,
      Commitment.toBytes, Commitment.body, List.cons_append, List.getD_cons_zero, if_true, hE0,
      if_false, List.length_cons, h]
    cases k <;> rfl
  | blinded second body h =>
    obtain ⟨hne0, hne, hmem⟩ := blinded_tag k second
    rw [mem_blindedPrefixes] at hmem
    simp only [confidentialCommitmentVarintFromBytes, Commitment.payload, Commitment.tag,
      Commitment.toBytes, Commitment.body, List.cons_append, List.getD_cons_zero, hne, hne0, hmem,
      if_false, if_true, List.length_cons, h]
    rfl

/-- On a byte the length form rejects, the varint form reads a blinded field of another kind, or
a null field. -/
theorem varintFromBytes_of_rejected (k : CommitmentKind) {bytes : Bytes}
    (h : k.lengthFromBytes bytes = 0) :
    k.varintFromBytes bytes = if bytes.getD 0 0 ∈ blindedPrefixes then
      (UInt64.ofNat wallyTxAssetCtLen, wallyTxAssetCtLen) else (0, 1) := by
  rw [CommitmentKind.lengthFromBytes_eq, getCommitmentLen] at h
  rw [CommitmentKind.varintFromBytes_eq, confidentialCommitmentVarintFromBytes]
  simp only [mem_blindedPrefixes]
  split_ifs at h with h0 h1 <;> simp_all [wallyTxAssetCtLen, wallyTxAssetCtValueUnblindLen]

/-- **The varint form against the length form.** On every well-formed field of a kind, whatever
follows it, the varint form returns the field's length, as the length form does, and stores the
length of the field's payload, `0` for the null field. On every buffer the length form rejects,
the varint form reads a 33-byte field where the first byte is a blinded prefix of any kind and a
null field otherwise: it never reports an invalid serialisation. -/
theorem confidential_varint_form (k : CommitmentKind) :
    (∀ (c : Commitment k) (rest : Bytes),
      k.varintFromBytes (c.toBytes ++ rest) = (UInt64.ofNat c.payload.length, c.toBytes.length) ∧
        k.lengthFromBytes (c.toBytes ++ rest) = c.toBytes.length) ∧
    (∀ bytes : Bytes, k.lengthFromBytes bytes = 0 →
      k.varintFromBytes bytes = if bytes.getD 0 0 ∈ blindedPrefixes then
        (UInt64.ofNat wallyTxAssetCtLen, wallyTxAssetCtLen) else (0, 1)) :=
  ⟨fun c rest => ⟨varintFromBytes_toBytes k c rest, lengthFromBytes_toBytes k c rest⟩,
    fun _ => varintFromBytes_of_rejected k⟩

/-! ### The value writer -/

/-- Only the null field starts with the null byte. -/
theorem tag_eq_zero {k : CommitmentKind} {c : Commitment k} (h : c.tag = 0) : c.toBytes = [0] := by
  cases c with
  | null => rfl
  | explicit body _ => cases h
  | blinded second body _ => exact absurd h (blinded_tag k second).1

/-- What `confidential_value_to_bytes` makes of a field's payload: it writes the field and
returns its length. -/
theorem confidentialValueToBytes_payload {k : CommitmentKind} (c : Commitment k) (out : Bytes) :
    confidentialValueToBytes c.payload out = (out.write 0 c.toBytes, c.toBytes.length) := by
  unfold confidentialValueToBytes Commitment.payload
  by_cases h : c.tag = 0
  · rw [if_pos h, if_pos rfl, tag_eq_zero h]; rfl
  · rw [if_neg h, if_neg (by simp [Commitment.toBytes])]

/-- **The value writer and its readers.** For every value field and every buffer,
`confidential_value_to_bytes` on the field's payload returns the field's length and writes the
field at the front of the buffer, and both value readers read back that length from the buffer,
the varint form storing the payload's length. -/
theorem confidential_value_round_trip (c : Commitment .value) (out : Bytes) :
    let w := confidentialValueToBytes c.payload out
    w.2 = c.toBytes.length ∧ w.1.take w.2 = c.toBytes ∧
      confidentialValueLengthFromBytes w.1 = w.2 ∧
      confidentialValueVarintFromBytes w.1 = (UInt64.ofNat c.payload.length, w.2) := by
  dsimp only
  rw [confidentialValueToBytes_payload, Bytes.write_zero]
  exact ⟨rfl, List.take_left _ _, lengthFromBytes_toBytes .value c _,
    varintFromBytes_toBytes .value c _⟩

end WallyScript
