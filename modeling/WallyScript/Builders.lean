import WallyScript.Classify

/-!
# ScriptPubkey builders

The scriptPubkey builders of `script.c` (lines 536–893, 1003–1049 and 1299–1341): P2PKH, P2SH,
OP_RETURN, bare multisig, the two CSV-recovery templates, witness programs and P2TR. Each takes
the caller's buffer `out`, whose length is the capacity `len`, and returns an `Outcome`.

Every builder ends in one of three ways: an error before any store, a size answer with the
buffer untouched, or its image stored at the front of the buffer. The spec lemma of each builder
(`…_eq`) says which, on every input it builds from; the image is the builder's own sequence of
stores. The `…_of_fits` lemmas go the other way: a call that succeeds into a buffer holding its
answer was given such an input.

OP_RETURN and witness programs are the exceptions to the three endings: they store their first
byte before the push decides, so on a short buffer they leave it behind
(`wallyScriptpubkeyOpReturnFromBytes_eq`, `wallyWitnessProgramFromBytesAndVersion_eq`).
-/

namespace WallyScript

/-! ### Constants -/

/-- `WALLY_WITNESSSCRIPT_MAX_LEN - 2`, the `v1plus_max_size` of
`wally_witness_program_from_bytes_and_version`: "40 data bytes, 1 byte version plus 1 byte push
opcode". -/
def v1plusMaxSize : Nat := 40

/-! ### P2PKH and P2SH -/

/-- `wally_scriptpubkey_p2pkh_from_bytes`. -/
def wallyScriptpubkeyP2pkhFromBytes (c : Collab) (bytes : Bytes) (flags : UInt32)
    (out : Bytes) : Outcome :=
  let len := out.length
  if bytes = [] ∨ !scriptFlagsOk flags 0 ∨ flags &&& wallyScriptSha256 ≠ 0 ∨ len = 0 then
    ⟨.einval, 0, out⟩
  else if len < scriptpubkeyP2pkhLen then ⟨.ok, scriptpubkeyP2pkhLen, out⟩
  else if (if flags &&& wallyScriptHash160 ≠ 0 then
        bytes.length ≠ ecPublicKeyLen ∧ bytes.length ≠ ecPublicKeyUncompressedLen
      else bytes.length ≠ hash160Len) then ⟨.einval, 0, out⟩
  else
    let o := wallyScriptPushFromBytes c bytes flags (out.write 0 [opDup, opHash160]) 2 (len - 4)
    if o.ret = .ok then
      ⟨.ok, scriptpubkeyP2pkhLen, o.mem.write (scriptpubkeyP2pkhLen - 2) [opEqualverify, opChecksig]⟩
    else o

/-- `wally_scriptpubkey_p2sh_from_bytes`. -/
def wallyScriptpubkeyP2shFromBytes (c : Collab) (bytes : Bytes) (flags : UInt32)
    (out : Bytes) : Outcome :=
  let len := out.length
  if bytes = [] ∨ flags &&& ~~~wallyScriptHash160 ≠ 0 ∨ len = 0 then ⟨.einval, 0, out⟩
  else if flags &&& wallyScriptHash160 = 0 ∧ bytes.length ≠ hash160Len then ⟨.einval, 0, out⟩
  else if len < scriptpubkeyP2shLen then ⟨.ok, scriptpubkeyP2shLen, out⟩
  else
    let o := wallyScriptPushFromBytes c bytes flags (out.write 0 [opHash160]) 1 (len - 2)
    if o.ret = .ok then ⟨.ok, scriptpubkeyP2shLen, o.mem.write (scriptpubkeyP2shLen - 1) [opEqual]⟩
    else o

/-! ### OP_RETURN -/

/-- `wally_scriptpubkey_op_return_from_bytes`, for the header's `WALLY_MAX_OP_RETURN_LEN`
`maxOpReturnLen`. -/
def wallyScriptpubkeyOpReturnFromBytes (maxOpReturnLen : Nat) (c : Collab) (bytes : Bytes)
    (flags : UInt32) (out : Bytes) : Outcome :=
  let len := out.length
  if bytes.length > maxOpReturnLen ∨ flags ≠ 0 ∨ len = 0 then ⟨.einval, 0, out⟩
  else
    let o := wallyScriptPushFromBytes c bytes flags out 1 (len - 1)
    if o.ret = .ok then ⟨.ok, o.written + 1, o.mem.write 0 [opReturn]⟩ else o

/-! ### Bare multisig -/

/-- `pubkey_compare(a, b) <= 0`: `memcmp` of two keys, byte by byte as unsigned values. -/
def pubkeyCompareLe : Bytes → Bytes → Bool
  | [], _ => true
  | _ :: _, [] => false
  | a :: as, b :: bs => a.toNat < b.toNat || (a = b && pubkeyCompareLe as bs)

/-- The key loop of `wally_scriptpubkey_multisig_from_bytes`: each key behind the byte
`EC_PUBLIC_KEY_LEN`. -/
def multisigKeys : List Bytes → Bytes
  | [] => []
  | k :: ks => UInt8.ofNat ecPublicKeyLen :: k ++ multisigKeys ks

/-- The stores of `wally_scriptpubkey_multisig_from_bytes`: `OP_m`, the keys, `OP_n` and
`OP_CHECKMULTISIG`. -/
def multisigImage (threshold : Nat) (keys : List Bytes) : Bytes :=
  [valueToOpN threshold] ++ multisigKeys keys ++ [valueToOpN keys.length, opCheckmultisig]

/-- `pubkey_bytes` after the `memcpy` and, with `WALLY_SCRIPT_MULTISIG_SORTED`, the `qsort` with
`pubkey_compare`: a sort by `pubkeyCompareLe`, whose result a total order on keys fixes. -/
def multisigPubkeys (bytes : Bytes) (flags : UInt32) : List Bytes :=
  let keys := bytes.chunks ecPublicKeyLen (bytes.length / ecPublicKeyLen)
  if flags &&& wallyScriptMultisigSorted ≠ 0 then keys.mergeSort pubkeyCompareLe else keys

/-- `wally_scriptpubkey_multisig_from_bytes`. -/
def wallyScriptpubkeyMultisigFromBytes (bytes : Bytes) (threshold : Nat) (flags : UInt32)
    (out : Bytes) : Outcome :=
  let nPubkeys := bytes.length / ecPublicKeyLen
  let scriptLen := 3 + nPubkeys * (ecPublicKeyLen + 1)
  if bytes = [] ∨ bytes.length % ecPublicKeyLen ≠ 0 ∨ nPubkeys < 1 ∨ nPubkeys > 15 ∨
      threshold < 1 ∨ threshold > 15 ∨ threshold > nPubkeys ∨
      flags &&& ~~~wallyScriptMultisigSorted ≠ 0 ∨ out.length = 0 then ⟨.einval, 0, out⟩
  else if out.length < scriptLen then ⟨.ok, scriptLen, out⟩
  else ⟨.ok, scriptLen, out.write 0 (multisigImage threshold (multisigPubkeys bytes flags))⟩

/-! ### The CSV-recovery templates -/

/-- The stores of `wally_scriptpubkey_csv_2of2_then_1_from_bytes`. -/
def csv2of2Then1Image (bytes : Bytes) (csvBlocks : Nat) : Bytes :=
  [opDepth, op1sub, opIf, UInt8.ofNat ecPublicKeyLen] ++ bytes.take ecPublicKeyLen ++
    [opChecksigverify, opElse, UInt8.ofNat (scriptintGetLength csvBlocks)] ++
    scriptintToBytes csvBlocks ++
    [opChecksequenceverify, opDrop, opEndif, UInt8.ofNat ecPublicKeyLen] ++
    (bytes.drop ecPublicKeyLen).take ecPublicKeyLen ++ [opChecksig]

/-- `wally_scriptpubkey_csv_2of2_then_1_from_bytes`. -/
def wallyScriptpubkeyCsv2of2Then1FromBytes (bytes : Bytes) (csvBlocks : Nat) (flags : UInt32)
    (out : Bytes) : Outcome :=
  let csvLen := scriptintGetLength csvBlocks
  let scriptLen := 2 * (ecPublicKeyLen + 1) + 9 + 1 + csvLen
  if bytes.length ≠ 2 * ecPublicKeyLen ∨ csvBlocks < 17 ∨ csvBlocks > 0xffff ∨ flags ≠ 0 then
    ⟨.einval, 0, out⟩
  else if out.length < scriptLen then ⟨.ok, scriptLen, out⟩
  else ⟨.ok, scriptLen, out.write 0 (csv2of2Then1Image bytes csvBlocks)⟩

/-- The stores of `wally_scriptpubkey_csv_2of2_then_1_from_bytes_opt`. -/
def csv2of2Then1OptImage (bytes : Bytes) (csvBlocks : Nat) : Bytes :=
  [UInt8.ofNat ecPublicKeyLen] ++ (bytes.drop ecPublicKeyLen).take ecPublicKeyLen ++
    [opChecksigverify, UInt8.ofNat ecPublicKeyLen] ++ bytes.take ecPublicKeyLen ++
    [opChecksig, opIfdup, opNotif, UInt8.ofNat (scriptintGetLength csvBlocks)] ++
    scriptintToBytes csvBlocks ++ [opChecksequenceverify, opEndif]

/-- `wally_scriptpubkey_csv_2of2_then_1_from_bytes_opt`. -/
def wallyScriptpubkeyCsv2of2Then1FromBytesOpt (bytes : Bytes) (csvBlocks : Nat) (flags : UInt32)
    (out : Bytes) : Outcome :=
  let csvLen := scriptintGetLength csvBlocks
  let scriptLen := 2 * (ecPublicKeyLen + 1) + 6 + 1 + csvLen
  if bytes.length ≠ 2 * ecPublicKeyLen ∨ csvBlocks < 17 ∨ csvBlocks > 0xffff ∨ flags ≠ 0 then
    ⟨.einval, 0, out⟩
  else if out.length < scriptLen then ⟨.ok, scriptLen, out⟩
  else ⟨.ok, scriptLen, out.write 0 (csv2of2Then1OptImage bytes csvBlocks)⟩

/-! ### Witness programs and P2TR -/

/-- The length checks of `wally_witness_program_from_bytes_and_version` on the program. -/
def witnessProgramLengthBad (bytes : Bytes) (version : Nat) (flags : UInt32) : Bool :=
  if flags &&& allScriptHashFlags ≠ 0 then bytes = []
  else if version = 0 ∧ bytes.length ≠ hash160Len ∧ bytes.length ≠ sha256Len then true
  else bytes.length < 2 ∨ bytes.length > v1plusMaxSize

/-- `wally_witness_program_from_bytes_and_version`. With `WALLY_SCRIPT_AS_PUSH` it writes one
byte further on, and stores the length of the rest in front. -/
def wallyWitnessProgramFromBytesAndVersion (c : Collab) (bytes : Bytes) (version : Nat)
    (flags : UInt32) (out : Bytes) : Outcome :=
  if version > 16 ∨ !scriptFlagsOk flags wallyScriptAsPush ∨ out.length = 0 then ⟨.einval, 0, out⟩
  else if witnessProgramLengthBad bytes version flags then ⟨.einval, 0, out⟩
  else if flags &&& wallyScriptAsPush ≠ 0 ∧ out.length < 2 then ⟨.einval, 0, out⟩
  else
    let asPush := flags &&& wallyScriptAsPush ≠ 0
    let p := if asPush then 1 else 0
    let o := wallyScriptPushFromBytes c bytes (flags &&& ~~~wallyScriptAsPush)
      (out.write p [valueToOpN version]) (p + 1) (out.length - p - 1)
    if o.ret = .ok then
      if asPush then ⟨.ok, o.written + 2, o.mem.write 0 [UInt8.ofNat (o.written + 1)]⟩
      else ⟨.ok, o.written + 1, o.mem⟩
    else o

/-- `wally_witness_program_from_bytes`: a version-0 witness program. -/
def wallyWitnessProgramFromBytes (c : Collab) (bytes : Bytes) (flags : UInt32) (out : Bytes) :
    Outcome :=
  wallyWitnessProgramFromBytesAndVersion c bytes 0 flags out

/-- The key `wally_scriptpubkey_p2tr_from_bytes` stores: a 33-byte key tweaked by
`wally_ec_public_key_bip341_tweak` and made x-only by dropping its first byte, any other as
given. -/
def p2trKey (c : Collab) (bytes : Bytes) (flags : UInt32) : Except Ret Bytes :=
  if bytes.length = ecPublicKeyLen then (c.bip341Tweak bytes flags).map (·.drop 1) else .ok bytes

/-- `wally_scriptpubkey_p2tr_from_bytes`; `extraFlags` is `EC_FLAG_ELEMENTS` on the Elements
build and `0` otherwise. -/
def wallyScriptpubkeyP2trFromBytes (c : Collab) (extraFlags : UInt32) (bytes : Bytes)
    (flags : UInt32) (out : Bytes) : Outcome :=
  if flags &&& ~~~extraFlags ≠ 0 then ⟨.einval, 0, out⟩
  else if out.length < scriptpubkeyP2wshLen then ⟨.ok, scriptpubkeyP2wshLen, out⟩
  else
    match p2trKey c bytes flags with
    | .error e => ⟨e, 0, out⟩
    | .ok key =>
      if key.length ≠ ecXonlyPublicKeyLen then ⟨.einval, 0, out⟩
      else ⟨.ok, scriptpubkeyP2wshLen, out.write 0 ([op1, UInt8.ofNat key.length] ++ key)⟩

/-! ### Spec lemmas: P2PKH, P2SH and OP_RETURN -/

/-- The image of a P2PKH scriptPubkey for the hash `h`. -/
def p2pkhImage (h : Bytes) : Bytes :=
  [opDup, opHash160] ++ pushScript h ++ [opEqualverify, opChecksig]

/-- The inputs `wally_scriptpubkey_p2pkh_from_bytes` builds from: a 20-byte hash, or with
`WALLY_SCRIPT_HASH160` a public key. -/
def P2pkhInput (bytes : Bytes) (flags : UInt32) : Prop :=
  scriptFlagsOk flags 0 = true ∧ flags &&& wallyScriptSha256 = 0 ∧
    if flags &&& wallyScriptHash160 ≠ 0 then isPkLen bytes.length = true
    else bytes.length = hash160Len

theorem length_pushPayload_p2pkh {c : Collab} {bytes : Bytes} {flags : UInt32}
    (h : P2pkhInput bytes flags) : (pushPayload c bytes flags).length = hash160Len := by
  obtain ⟨-, hs, hl⟩ := h
  unfold pushPayload
  split_ifs at hl ⊢ with h1 <;> simp_all [c.hash160_length]

theorem length_pushScript_hash160 {q : Bytes} (hq : q.length = hash160Len) :
    (pushScript q).length = 21 := by
  simp [hq, scriptGetPushSize, calcPushOpcodeSize, hash160Len]

/-- **P2PKH.** On an input it builds from, the builder keeps the sizing contract with the
P2PKH layout of the hash. -/
theorem wallyScriptpubkeyP2pkhFromBytes_eq {c : Collab} {bytes : Bytes} {flags : UInt32}
    (h : P2pkhInput bytes flags) {out : Bytes} (hout : out ≠ []) :
    wallyScriptpubkeyP2pkhFromBytes c bytes flags out =
      .sized (p2pkhImage (pushPayload c bytes flags)) out := by
  have hps := length_pushScript_hash160 (length_pushPayload_p2pkh (c := c) h)
  have hi : (p2pkhImage (pushPayload c bytes flags)).length = scriptpubkeyP2pkhLen := by
    simp [p2pkhImage, hps, scriptpubkeyP2pkhLen]
  obtain ⟨hf, hs, hl⟩ := h
  have hb : bytes ≠ [] := by
    rintro rfl
    split_ifs at hl <;> simp_all [isPkLen, hash160Len, ecPublicKeyLen, ecPublicKeyUncompressedLen]
  have hgood : ¬(if flags &&& wallyScriptHash160 ≠ 0 then
      bytes.length ≠ ecPublicKeyLen ∧ bytes.length ≠ ecPublicKeyUncompressedLen
      else bytes.length ≠ hash160Len) := by
    split_ifs at hl ⊢ <;> simp_all [isPkLen]; omega
  unfold wallyScriptpubkeyP2pkhFromBytes
  dsimp only
  rw [if_neg (by simp [hb, hf, hs, hout])]
  by_cases h1 : out.length < scriptpubkeyP2pkhLen
  · simp [h1, Outcome.sized, Outcome.sizedAt, hi]
  · rw [if_neg h1, if_neg hgood, wallyScriptPushFromBytes_after (p := 0) (q := 2) hf
      (by simp [scriptpubkeyP2pkhLen] at h1; omega) (by rfl)]
    simp only [Outcome.sized, Outcome.sizedAt, hi, if_neg h1, if_true]
    rw [show scriptpubkeyP2pkhLen - 2 = 0 + ([opDup, opHash160] ++
      pushScript (pushPayload c bytes flags)).length by simp [hps, scriptpubkeyP2pkhLen],
      Bytes.write_write]
    rfl

/-- The image of a P2SH scriptPubkey for the hash `h`. -/
def p2shImage (h : Bytes) : Bytes :=
  [opHash160] ++ pushScript h ++ [opEqual]

/-- The inputs `wally_scriptpubkey_p2sh_from_bytes` builds from: a 20-byte hash, or with
`WALLY_SCRIPT_HASH160` any non-empty script. -/
def P2shInput (bytes : Bytes) (flags : UInt32) : Prop :=
  bytes ≠ [] ∧ flags &&& ~~~wallyScriptHash160 = 0 ∧
    (flags &&& wallyScriptHash160 = 0 → bytes.length = hash160Len)

theorem length_pushPayload_p2sh {c : Collab} {bytes : Bytes} {flags : UInt32}
    (h : P2shInput bytes flags) : (pushPayload c bytes flags).length = hash160Len := by
  obtain ⟨-, hm, hl⟩ := h
  rcases flags_of_and_not_hash160 hm with rfl | rfl
  · simpa [pushPayload] using hl rfl
  · rw [show pushPayload c bytes wallyScriptHash160 = c.hash160 bytes from rfl, c.hash160_length]

/-- **P2SH.** On an input it builds from, the builder keeps the sizing contract with the P2SH
layout of the hash. -/
theorem wallyScriptpubkeyP2shFromBytes_eq {c : Collab} {bytes : Bytes} {flags : UInt32}
    (h : P2shInput bytes flags) {out : Bytes} (hout : out ≠ []) :
    wallyScriptpubkeyP2shFromBytes c bytes flags out =
      .sized (p2shImage (pushPayload c bytes flags)) out := by
  obtain ⟨hb, hm, hl⟩ := h
  have hf : scriptFlagsOk flags 0 = true := by
    rcases flags_of_and_not_hash160 hm with rfl | rfl <;> decide
  have hps := length_pushScript_hash160 (length_pushPayload_p2sh (c := c) ⟨hb, hm, hl⟩)
  have hi : (p2shImage (pushPayload c bytes flags)).length = scriptpubkeyP2shLen := by
    simp [p2shImage, hps, scriptpubkeyP2shLen]
  unfold wallyScriptpubkeyP2shFromBytes
  dsimp only
  rw [if_neg (by simp [hb, hm, hout]), if_neg (by tauto)]
  by_cases h1 : out.length < scriptpubkeyP2shLen
  · simp [h1, Outcome.sized, Outcome.sizedAt, hi]
  · rw [if_neg h1, wallyScriptPushFromBytes_after (p := 0) (q := 1) hf
      (by simp [scriptpubkeyP2shLen] at h1; omega) (by rfl)]
    simp only [Outcome.sized, Outcome.sizedAt, hi, if_neg h1, if_true]
    rw [show scriptpubkeyP2shLen - 1 = 0 + ([opHash160] ++
      pushScript (pushPayload c bytes flags)).length by simp [hps, scriptpubkeyP2shLen],
      Bytes.write_write]
    rfl

/-- The image of an OP_RETURN scriptPubkey for the payload `q`. -/
def opReturnImage (q : Bytes) : Bytes := opReturn :: pushScript q

/-- **OP_RETURN.** On a payload within the cap and no flags, the builder fails on a 1-byte
buffer, answers the size on a larger one, stores `OP_RETURN` in front even when the push does not
fit, and stores its image when the buffer holds it. -/
theorem wallyScriptpubkeyOpReturnFromBytes_eq {maxLen : Nat} {c : Collab} {bytes out : Bytes}
    (hb : bytes.length ≤ maxLen) (hout : out ≠ []) :
    wallyScriptpubkeyOpReturnFromBytes maxLen c bytes 0 out =
      if out.length = 1 then ⟨.einval, 0, out⟩
      else if out.length < (opReturnImage bytes).length then
        ⟨.ok, (opReturnImage bytes).length, out.write 0 [opReturn]⟩
      else ⟨.ok, (opReturnImage bytes).length, out.write 0 (opReturnImage bytes)⟩ := by
  have hlen : out.length ≠ 0 := by simpa using hout
  unfold wallyScriptpubkeyOpReturnFromBytes
  dsimp only
  rw [if_neg (by simp [hlen]; omega)]
  by_cases h1 : out.length = 1
  · rw [wallyScriptPushFromBytes_einval (Or.inr (by omega)), if_pos h1]; rfl
  have hI : (opReturnImage bytes).length = (pushScript bytes).length + 1 := rfl
  have ho : wallyScriptPushFromBytes c bytes 0 out 1 (out.length - 1) =
      .sizedAt (pushScript bytes) out 1 (out.length - 1) :=
    wallyScriptPushFromBytes_eq (by decide) (by omega)
  rw [Outcome.sizedAt] at ho
  rw [if_neg h1, ho, hI]
  by_cases h2 : out.length < (pushScript bytes).length + 1
  · rw [if_pos (show out.length - 1 < (pushScript bytes).length by omega), if_pos h2, if_pos rfl]
  · rw [if_neg (show ¬out.length - 1 < (pushScript bytes).length by omega), if_neg h2, if_pos rfl,
      Bytes.write_write_before (by rfl) (by omega)]
    rfl

/-! ### Spec lemmas: bare multisig -/

/-- Each key the loop stores is a direct push of 33 bytes. -/
theorem multisigKeys_eq_flatten (keys : List Bytes) :
    multisigKeys keys = (keys.map (UInt8.ofNat ecPublicKeyLen :: ·)).flatten := by
  induction keys with
  | nil => rfl
  | cons k ks ih => simp [multisigKeys, ih]

theorem length_multisigPubkeys (bytes : Bytes) (flags : UInt32) :
    (multisigPubkeys bytes flags).length = bytes.length / ecPublicKeyLen := by
  unfold multisigPubkeys; split_ifs <;> simp [List.length_mergeSort]

theorem length_of_mem_multisigPubkeys {bytes : Bytes} {flags : UInt32} {k : Bytes}
    (hk : k ∈ multisigPubkeys bytes flags) : k.length = ecPublicKeyLen := by
  have h : bytes.length / ecPublicKeyLen * ecPublicKeyLen ≤ bytes.length := Nat.div_mul_le_self _ _
  unfold multisigPubkeys at hk
  split_ifs at hk
  · exact Bytes.length_of_mem_chunks h ((List.mem_mergeSort).mp hk)
  · exact Bytes.length_of_mem_chunks h hk

theorem length_multisigImage {threshold : Nat} {keys : List Bytes}
    (hk : ∀ k ∈ keys, k.length = ecPublicKeyLen) :
    (multisigImage threshold keys).length = 3 + keys.length * (ecPublicKeyLen + 1) := by
  induction keys with
  | nil => rfl
  | cons k ks ih =>
    simp only [multisigImage, multisigKeys, List.length_append, List.length_cons,
      List.length_singleton] at ih ⊢
    rw [hk k (List.mem_cons_self _ _)]
    have := ih (fun k h => hk k (List.mem_cons_of_mem _ h))
    rw [Nat.succ_mul]; omega

/-- The inputs `wally_scriptpubkey_multisig_from_bytes` builds from: 1 to 15 keys, a threshold
from 1 to their number, and no flag but `WALLY_SCRIPT_MULTISIG_SORTED`. -/
def MultisigInput (bytes : Bytes) (threshold : Nat) (flags : UInt32) : Prop :=
  bytes.length % ecPublicKeyLen = 0 ∧ 1 ≤ bytes.length / ecPublicKeyLen ∧
    bytes.length / ecPublicKeyLen ≤ 15 ∧ 1 ≤ threshold ∧
    threshold ≤ bytes.length / ecPublicKeyLen ∧ flags &&& ~~~wallyScriptMultisigSorted = 0

/-- **Bare multisig.** On an input it builds from, the builder keeps the sizing contract with
`OP_m`, the keys in their stored order, `OP_n` and `OP_CHECKMULTISIG`. -/
theorem wallyScriptpubkeyMultisigFromBytes_eq {bytes : Bytes} {threshold : Nat} {flags : UInt32}
    (h : MultisigInput bytes threshold flags) {out : Bytes} (hout : out ≠ []) :
    wallyScriptpubkeyMultisigFromBytes bytes threshold flags out =
      .sized (multisigImage threshold (multisigPubkeys bytes flags)) out := by
  obtain ⟨hm, hn1, hn15, ht1, htn, hf⟩ := h
  have hi : (multisigImage threshold (multisigPubkeys bytes flags)).length =
      3 + bytes.length / ecPublicKeyLen * (ecPublicKeyLen + 1) := by
    rw [length_multisigImage fun _ => length_of_mem_multisigPubkeys, length_multisigPubkeys]
  have hb : bytes ≠ [] := by rintro rfl; simp at hn1
  have hl : out.length ≠ 0 := by simpa using hout
  unfold wallyScriptpubkeyMultisigFromBytes
  dsimp only
  rw [if_neg (by simp [hb, hm, hf, hl]; omega)]
  simp only [Outcome.sized, Outcome.sizedAt, hi]
  split_ifs <;> rfl

/-! ### Spec lemmas: the CSV-recovery templates -/

/-- The inputs both CSV builders build from: two 33-byte keys, a delay in `[17, 65535]` and no
flags. -/
def CsvInput (bytes : Bytes) (csvBlocks : Nat) (flags : UInt32) : Prop :=
  bytes.length = 2 * ecPublicKeyLen ∧ 17 ≤ csvBlocks ∧ csvBlocks ≤ 0xffff ∧ flags = 0

/-- **CSV, template A.** On an input it builds from, the builder keeps the sizing contract with
template A around the minimal delay push, on every buffer. -/
theorem wallyScriptpubkeyCsv2of2Then1FromBytes_eq {bytes : Bytes} {csvBlocks : Nat}
    {flags : UInt32} (h : CsvInput bytes csvBlocks flags) (out : Bytes) :
    wallyScriptpubkeyCsv2of2Then1FromBytes bytes csvBlocks flags out =
      .sized (csv2of2Then1Image bytes csvBlocks) out := by
  obtain ⟨hb, h17, hmax, rfl⟩ := h
  have hi : (csv2of2Then1Image bytes csvBlocks).length =
      2 * (ecPublicKeyLen + 1) + 9 + 1 + scriptintGetLength csvBlocks := by
    simp [csv2of2Then1Image, length_scriptintToBytes, hb, ecPublicKeyLen]; omega
  simp only [wallyScriptpubkeyCsv2of2Then1FromBytes, hb, Outcome.sized, Outcome.sizedAt, hi]
  rw [if_neg (by simp [h17, hmax])]
  split_ifs <;> rfl

/-- **CSV, optimised template.** As for template A. -/
theorem wallyScriptpubkeyCsv2of2Then1FromBytesOpt_eq {bytes : Bytes} {csvBlocks : Nat}
    {flags : UInt32} (h : CsvInput bytes csvBlocks flags) (out : Bytes) :
    wallyScriptpubkeyCsv2of2Then1FromBytesOpt bytes csvBlocks flags out =
      .sized (csv2of2Then1OptImage bytes csvBlocks) out := by
  obtain ⟨hb, h17, hmax, rfl⟩ := h
  have hi : (csv2of2Then1OptImage bytes csvBlocks).length =
      2 * (ecPublicKeyLen + 1) + 6 + 1 + scriptintGetLength csvBlocks := by
    simp [csv2of2Then1OptImage, length_scriptintToBytes, hb, ecPublicKeyLen]; omega
  simp only [wallyScriptpubkeyCsv2of2Then1FromBytesOpt, hb, Outcome.sized, Outcome.sizedAt, hi]
  rw [if_neg (by simp [h17, hmax])]
  split_ifs <;> rfl

/-! ### Spec lemmas: witness programs and P2TR -/

/-- The image of a witness program of version `version` for the program `q`. -/
def witnessProgramImage (version : Nat) (q : Bytes) : Bytes :=
  valueToOpN version :: pushScript q

/-- Flags valid with `WALLY_SCRIPT_AS_PUSH` allowed but not set: none, or one hash flag. -/
theorem flags_of_not_asPush {flags : UInt32} (h : scriptFlagsOk flags wallyScriptAsPush = true)
    (hp : flags &&& wallyScriptAsPush = 0) :
    flags = 0 ∨ flags = wallyScriptHash160 ∨ flags = wallyScriptSha256 := by
  have h7 : flags &&& ~~~(UInt32.ofNat (2 ^ 3 - 1)) = 0 := by
    simp only [scriptFlagsOk, Bool.not_eq_true', Bool.or_eq_false_iff, bne_eq_false_iff_eq] at h
    exact h.1
  obtain ⟨m, hm, rfl⟩ := eq_ofNat_of_toNat_lt (toNat_lt_of_and_not h7)
  revert h hp
  interval_cases m <;> decide

/-- The inputs `wally_witness_program_from_bytes_and_version` builds from without
`WALLY_SCRIPT_AS_PUSH`. -/
def WitnessProgramInput (bytes : Bytes) (version : Nat) (flags : UInt32) : Prop :=
  version ≤ 16 ∧ scriptFlagsOk flags wallyScriptAsPush = true ∧ flags &&& wallyScriptAsPush = 0 ∧
    witnessProgramLengthBad bytes version flags = false

/-- The program a witness-program builder pushes has 2 to 40 bytes. -/
theorem length_pushPayload_witness {c : Collab} {bytes : Bytes} {version : Nat} {flags : UInt32}
    (h : WitnessProgramInput bytes version flags) :
    2 ≤ (pushPayload c bytes flags).length ∧ (pushPayload c bytes flags).length ≤ 40 := by
  obtain ⟨-, hf, hp, hl⟩ := h
  rcases flags_of_not_asPush hf hp with rfl | rfl | rfl
  · simp only [witnessProgramLengthBad, show (0 : UInt32) &&& allScriptHashFlags = 0 from rfl,
      ne_eq, not_true_eq_false, if_false] at hl
    simp only [pushPayload, show (0 : UInt32) &&& wallyScriptHash160 = 0 from rfl,
      show (0 : UInt32) &&& wallyScriptSha256 = 0 from rfl, ne_eq, not_true_eq_false, if_false]
    split_ifs at hl
    simp_all [hash160Len, sha256Len, v1plusMaxSize]
  · rw [show pushPayload c bytes wallyScriptHash160 = c.hash160 bytes from rfl, c.hash160_length]
    decide
  · rw [show pushPayload c bytes wallyScriptSha256 = c.sha256 bytes from rfl, c.sha256_length]
    decide

/-- **Witness programs.** Without `WALLY_SCRIPT_AS_PUSH`, on an input it builds from, the builder
fails on a 1-byte buffer after storing the version opcode, answers the size on a buffer too small
for its image after storing the version opcode, and otherwise stores its image. -/
theorem wallyWitnessProgramFromBytesAndVersion_eq {c : Collab} {bytes : Bytes} {version : Nat}
    {flags : UInt32} (h : WitnessProgramInput bytes version flags) {out : Bytes}
    (hout : out ≠ []) :
    wallyWitnessProgramFromBytesAndVersion c bytes version flags out =
      if out.length = 1 then ⟨.einval, 0, out.write 0 [valueToOpN version]⟩
      else if out.length < (witnessProgramImage version (pushPayload c bytes flags)).length then
        ⟨.ok, (witnessProgramImage version (pushPayload c bytes flags)).length,
          out.write 0 [valueToOpN version]⟩
      else ⟨.ok, (witnessProgramImage version (pushPayload c bytes flags)).length,
        out.write 0 (witnessProgramImage version (pushPayload c bytes flags))⟩ := by
  obtain ⟨hv, hf, hp, hl⟩ := h
  have hclear : flags &&& ~~~wallyScriptAsPush = flags := by
    rcases flags_of_not_asPush hf hp with rfl | rfl | rfl <;> decide
  have hf0 : scriptFlagsOk flags 0 = true := by
    rcases flags_of_not_asPush hf hp with rfl | rfl | rfl <;> decide
  have hlen : out.length ≠ 0 := by simpa using hout
  have hI : (witnessProgramImage version (pushPayload c bytes flags)).length =
      (pushScript (pushPayload c bytes flags)).length + 1 := rfl
  unfold wallyWitnessProgramFromBytesAndVersion
  simp only [hclear, hp, hf, hl, hlen, ne_eq, not_true_eq_false, false_and, if_false,
    Bool.not_true, Bool.false_eq_true, or_false, Nat.sub_zero, show ¬version > 16 by omega]
  by_cases h1 : out.length = 1
  · -- the push is handed no room after the version byte
    rw [wallyScriptPushFromBytes_einval (Or.inr (by omega)), if_pos h1]; rfl
  have ho : wallyScriptPushFromBytes c bytes flags (out.write 0 [valueToOpN version]) (0 + 1)
      (out.length - 1) = .sizedAt (pushScript (pushPayload c bytes flags))
        (out.write 0 [valueToOpN version]) (0 + 1) (out.length - 1) :=
    wallyScriptPushFromBytes_eq hf0 (by omega)
  rw [Outcome.sizedAt] at ho
  rw [if_neg h1, ho, hI]
  by_cases h2 : out.length < (pushScript (pushPayload c bytes flags)).length + 1
  · -- the push answers its size, the version byte already stored
    rw [if_pos (show out.length - 1 < (pushScript (pushPayload c bytes flags)).length by omega),
      if_pos h2, if_pos rfl]
  · -- the push stores itself behind the version byte
    rw [if_neg (show ¬out.length - 1 < (pushScript (pushPayload c bytes flags)).length by omega),
      if_neg h2, if_pos rfl]
    rw [show (0 : Nat) + 1 = 0 + [valueToOpN version].length from rfl, Bytes.write_write]
    rfl

/-- What the witness-program builder stores: the program, and with `WALLY_SCRIPT_AS_PUSH` the
byte `*p = *written & 0xff` in front of it. -/
def witnessProgramOutput (version : Nat) (q : Bytes) (asPush : Bool) : Bytes :=
  if asPush then UInt8.ofNat (witnessProgramImage version q).length :: witnessProgramImage version q
  else witnessProgramImage version q

/-- **Witness programs that fit.** On an input it builds from, with or without
`WALLY_SCRIPT_AS_PUSH`, the builder stores its output on every buffer that holds it. -/
theorem wallyWitnessProgramFromBytesAndVersion_fits {c : Collab} {bytes : Bytes} {version : Nat}
    {flags : UInt32} (hv : version ≤ 16) (hf : scriptFlagsOk flags wallyScriptAsPush = true)
    (hl : witnessProgramLengthBad bytes version flags = false) {out : Bytes}
    (hfit : (witnessProgramOutput version (pushPayload c bytes (flags &&& ~~~wallyScriptAsPush))
      (flags &&& wallyScriptAsPush ≠ 0)).length ≤ out.length) :
    wallyWitnessProgramFromBytesAndVersion c bytes version flags out =
      .sized (witnessProgramOutput version (pushPayload c bytes (flags &&& ~~~wallyScriptAsPush))
        (flags &&& wallyScriptAsPush ≠ 0)) out := by
  have hI : (witnessProgramImage version (pushPayload c bytes (flags &&& ~~~wallyScriptAsPush))).length =
      (pushScript (pushPayload c bytes (flags &&& ~~~wallyScriptAsPush))).length + 1 := rfl
  have hf0 := scriptFlagsOk_asPush hf
  unfold wallyWitnessProgramFromBytesAndVersion
  by_cases ha : flags &&& wallyScriptAsPush = 0
  · -- the version byte at offset 0, the push behind it
    simp only [witnessProgramOutput, ha, ne_eq, not_true_eq_false, decide_False, if_false,
      Bool.false_eq_true, hI] at hfit ⊢
    have ho : wallyScriptPushFromBytes c bytes (flags &&& ~~~wallyScriptAsPush)
        (out.write 0 [valueToOpN version]) (0 + [valueToOpN version].length) (out.length - 0 - 1) =
        ⟨.ok, _,
          out.write 0 ([valueToOpN version] ++ pushScript (pushPayload c bytes (flags &&& ~~~wallyScriptAsPush)))⟩ :=
      wallyScriptPushFromBytes_after hf0 (by omega) rfl
    simp only [List.length_singleton, Nat.zero_add] at ho
    have hout : out ≠ [] := List.ne_nil_of_length_pos (by omega)
    rw [if_neg (by simp [hf, hout]; omega), if_neg (by simp [hl]), if_neg (by simp), ho,
      if_pos rfl, Outcome.sized, Outcome.sizedAt, hI, if_neg (by omega)]
    rfl
  · -- the version byte at offset 1, the push behind it, and its length in front
    simp only [witnessProgramOutput, ha, ne_eq, not_false_eq_true, decide_True, if_true,
      List.length_cons, hI] at hfit ⊢
    have ho : wallyScriptPushFromBytes c bytes (flags &&& ~~~wallyScriptAsPush)
        (out.write 1 [valueToOpN version]) (1 + [valueToOpN version].length) (out.length - 1 - 1) =
        ⟨.ok, _,
          out.write 1 ([valueToOpN version] ++ pushScript (pushPayload c bytes (flags &&& ~~~wallyScriptAsPush)))⟩ :=
      wallyScriptPushFromBytes_after hf0 (by omega) rfl
    simp only [List.length_singleton] at ho
    have hout : out ≠ [] := List.ne_nil_of_length_pos (by omega)
    rw [if_neg (by simp [hf, hout]; omega), if_neg (by simp [hl]), if_neg (by simp [ha]; omega), ho,
      if_pos rfl, Outcome.sized, Outcome.sizedAt]
    simp only [List.length_cons, hI]
    rw [if_neg (by omega), @Bytes.write_write_before out [_] _ 0 1 rfl (by omega)]
    rfl

/-- **Witness programs report their size.** On an input it builds from, the builder returns
`WALLY_OK` with the size of its output on every buffer of at least two bytes, three with
`WALLY_SCRIPT_AS_PUSH`: the push it makes then has room for its header. -/
theorem wallyWitnessProgramFromBytesAndVersion_reports {c : Collab} {bytes : Bytes}
    {version : Nat} {flags : UInt32} (hv : version ≤ 16)
    (hf : scriptFlagsOk flags wallyScriptAsPush = true)
    (hl : witnessProgramLengthBad bytes version flags = false) {out : Bytes}
    (hk : (if flags &&& wallyScriptAsPush = 0 then 2 else 3) ≤ out.length) :
    (wallyWitnessProgramFromBytesAndVersion c bytes version flags out).ret = .ok ∧
      (wallyWitnessProgramFromBytesAndVersion c bytes version flags out).written =
        (witnessProgramOutput version (pushPayload c bytes (flags &&& ~~~wallyScriptAsPush))
          (flags &&& wallyScriptAsPush ≠ 0)).length := by
  have hf0 := scriptFlagsOk_asPush hf
  have hout : out ≠ [] := List.ne_nil_of_length_pos (by split_ifs at hk <;> omega)
  unfold wallyWitnessProgramFromBytesAndVersion
  rw [if_neg (by simp [hf, hout]; omega), if_neg (by simp [hl])]
  by_cases ha : flags &&& wallyScriptAsPush = 0
  · -- the program at offset 0, its push handed all but the version byte
    rw [if_pos ha] at hk
    simp only [ha, ne_eq, not_true_eq_false, false_and, if_false, decide_False,
      Bool.false_eq_true, wallyScriptPushFromBytes_eq hf0 (show out.length - 0 - 1 ≠ 0 by omega)]
    simp [Outcome.sizedAt, witnessProgramOutput, witnessProgramImage]
  · -- the program one byte on, its push handed all but the header and the version byte
    rw [if_neg ha] at hk
    simp only [ha, ne_eq, not_false_eq_true, true_and, show ¬out.length < 2 by omega, if_false,
      if_true, decide_True, wallyScriptPushFromBytes_eq hf0 (show out.length - 1 - 1 ≠ 0 by omega)]
    simp [Outcome.sizedAt, witnessProgramOutput, witnessProgramImage]

/-- Flags valid with `WALLY_SCRIPT_AS_PUSH`, with it cleared: still valid, and with the same hash
flag. -/
theorem flags_clear_asPush {flags : UInt32} (h : scriptFlagsOk flags wallyScriptAsPush = true) :
    scriptFlagsOk (flags &&& ~~~wallyScriptAsPush) wallyScriptAsPush = true ∧
      (flags &&& ~~~wallyScriptAsPush) &&& wallyScriptAsPush = 0 ∧
      (flags &&& ~~~wallyScriptAsPush) &&& allScriptHashFlags = flags &&& allScriptHashFlags := by
  have h7 : flags &&& ~~~(UInt32.ofNat (2 ^ 3 - 1)) = 0 := by
    simp only [scriptFlagsOk, Bool.not_eq_true', Bool.or_eq_false_iff, bne_eq_false_iff_eq] at h
    exact h.1
  obtain ⟨m, hm, rfl⟩ := eq_ofNat_of_toNat_lt (toNat_lt_of_and_not h7)
  revert h
  interval_cases m <;> decide

/-- The program checks read the flags through their hash flags only. -/
theorem witnessProgramLengthBad_congr {bytes : Bytes} {version : Nat} {flags flags' : UInt32}
    (h : flags &&& allScriptHashFlags = flags' &&& allScriptHashFlags) :
    witnessProgramLengthBad bytes version flags = witnessProgramLengthBad bytes version flags' := by
  unfold witnessProgramLengthBad; rw [h]

/-- With `WALLY_SCRIPT_AS_PUSH`, the byte stored in front of a witness program is the header of
its push: a witness program takes at most 42 bytes. -/
theorem witnessProgramOutput_asPush {version : Nat} {q : Bytes} (hq : q.length ≤ 40) :
    witnessProgramOutput version q true = pushScript (witnessProgramImage version q) := by
  have hl : (witnessProgramImage version q).length < 76 := by
    simp [witnessProgramImage, scriptGetPushSize, calcPushOpcodeSize]; split_ifs <;> omega
  simp [witnessProgramOutput, pushScript, pushOpcode, hl]

/-- **The push form of a witness program.** With `WALLY_SCRIPT_AS_PUSH`, on every input it builds
from and every buffer that holds the result, the witness-program builder stores and reports
exactly what `wally_script_push_from_bytes` stores and reports for the witness program the
builder emits without the flag: its own `*p = *written & 0xff` is the push's header. -/
theorem witnessProgram_asPush {c : Collab} {bytes : Bytes} {version : Nat} {flags : UInt32}
    (hv : version ≤ 16) (hf : scriptFlagsOk flags wallyScriptAsPush = true)
    (hl : witnessProgramLengthBad bytes version flags = false)
    (hp : flags &&& wallyScriptAsPush ≠ 0) {out : Bytes}
    (hfit : (witnessProgramImage version
      (pushPayload c bytes (flags &&& ~~~wallyScriptAsPush))).length < out.length) :
    wallyWitnessProgramFromBytesAndVersion c bytes version flags out =
      wallyScriptPushFromBytes c
        (witnessProgramImage version (pushPayload c bytes (flags &&& ~~~wallyScriptAsPush)))
        0 out 0 out.length := by
  obtain ⟨hf', hp', hh⟩ := flags_clear_asPush hf
  have hq := (length_pushPayload_witness (c := c)
    ⟨hv, hf', hp', by rw [witnessProgramLengthBad_congr hh, hl]⟩).2
  have ho := @witnessProgramOutput_asPush version _ hq
  have hfit' : (pushScript (witnessProgramImage version
      (pushPayload c bytes (flags &&& ~~~wallyScriptAsPush)))).length ≤ out.length := by
    rw [← ho, witnessProgramOutput, if_pos rfl, List.length_cons]; omega
  rw [wallyWitnessProgramFromBytesAndVersion_fits hv hf hl (by rwa [decide_eq_true hp, ho]),
    decide_eq_true hp, ho, wallyScriptPushFromBytes_eq (by decide) (by omega)]
  rfl

/-- A 20-byte version-0 program pushed with `WALLY_SCRIPT_AS_PUSH` into 23 bytes. -/
theorem witnessProgram_asPush_p2wpkh :
    0 ≤ 16 ∧ scriptFlagsOk wallyScriptAsPush wallyScriptAsPush = true ∧
      witnessProgramLengthBad (List.replicate 20 7) 0 wallyScriptAsPush = false ∧
      wallyScriptAsPush &&& wallyScriptAsPush ≠ 0 ∧
      (witnessProgramImage 0 (pushPayload sampleCollab (List.replicate 20 7)
        (wallyScriptAsPush &&& ~~~wallyScriptAsPush))).length < (List.replicate 23 0).length ∧
      wallyWitnessProgramFromBytesAndVersion sampleCollab (List.replicate 20 7) 0 wallyScriptAsPush
          (List.replicate 23 0) =
        wallyScriptPushFromBytes sampleCollab
          (witnessProgramImage 0 (pushPayload sampleCollab (List.replicate 20 7)
            (wallyScriptAsPush &&& ~~~wallyScriptAsPush)))
          0 (List.replicate 23 0) 0 (List.replicate 23 0).length :=
  ⟨by decide, by decide, by decide, by decide, by decide,
    witnessProgram_asPush (by decide) (by decide) (by decide) (by decide) (by decide)⟩

/-- The inputs `wally_scriptpubkey_p2tr_from_bytes` builds from: flags within `extraFlags`, and a
key that is, or tweaks to, 32 bytes. -/
def P2trInput (c : Collab) (extraFlags : UInt32) (bytes : Bytes) (flags : UInt32) : Prop :=
  flags &&& ~~~extraFlags = 0 ∧
    ∃ key, p2trKey c bytes flags = .ok key ∧ key.length = ecXonlyPublicKeyLen

/-- The x-only key a P2TR scriptPubkey carries: what `p2trKey` gives, nothing when it fails. -/
def p2trOutputKey (c : Collab) (bytes : Bytes) (flags : UInt32) : Bytes :=
  match p2trKey c bytes flags with
  | .ok key => key
  | .error _ => []

theorem p2trOutputKey_eq {c : Collab} {bytes : Bytes} {flags : UInt32} {key : Bytes}
    (hk : p2trKey c bytes flags = .ok key) : p2trOutputKey c bytes flags = key := by
  rw [p2trOutputKey, hk]

/-- A P2TR scriptPubkey is the witness program of version 1 for its x-only key. -/
theorem p2trImage_eq {key : Bytes} (h32 : key.length = ecXonlyPublicKeyLen) :
    [op1, UInt8.ofNat ecXonlyPublicKeyLen] ++ key = witnessProgramImage 1 key := by
  simp [witnessProgramImage, pushScript, pushOpcode, h32, ecXonlyPublicKeyLen]; rfl

/-- **P2TR.** With allowed flags and a key that tweaks (or is already x-only) to 32 bytes, the
builder keeps the sizing contract with the version-1 witness program of the key, on every
buffer. -/
theorem wallyScriptpubkeyP2trFromBytes_eq {c : Collab} {extraFlags : UInt32} {bytes : Bytes}
    {flags : UInt32} {key : Bytes} (hf : flags &&& ~~~extraFlags = 0)
    (hk : p2trKey c bytes flags = .ok key) (h32 : key.length = ecXonlyPublicKeyLen) (out : Bytes) :
    wallyScriptpubkeyP2trFromBytes c extraFlags bytes flags out =
      .sized (witnessProgramImage 1 key) out := by
  have hi : (witnessProgramImage 1 key).length = scriptpubkeyP2wshLen := by
    simp [witnessProgramImage, h32, scriptGetPushSize, calcPushOpcodeSize, ecXonlyPublicKeyLen,
      scriptpubkeyP2wshLen]
  simp only [wallyScriptpubkeyP2trFromBytes, hf, hk, h32, ne_eq, not_true_eq_false, if_false,
    Outcome.sized, Outcome.sizedAt, hi, p2trImage_eq h32]
  split_ifs <;> rfl

/-! ### What a builder that fills its buffer was given -/

section Inversion

variable {c : Collab} {bytes : Bytes} {flags : UInt32} {out : Bytes}

theorem p2pkhInput_of_fits (hok : (wallyScriptpubkeyP2pkhFromBytes c bytes flags out).ret = .ok)
    (hw : (wallyScriptpubkeyP2pkhFromBytes c bytes flags out).written ≤ out.length) :
    P2pkhInput bytes flags ∧ out ≠ [] := by
  unfold wallyScriptpubkeyP2pkhFromBytes at hok hw
  dsimp only at hok hw
  split_ifs at hok hw with h1 h2 h3 h4 h5 h6 h7
  all_goals try simp only [reduceCtorEq] at hok hw
  -- the size answer exceeds the buffer, and a failed push is no success
  all_goals first | omega | exact absurd hok ‹_› | skip
  -- the two stores, with a key and with a hash
  all_goals
    simp only [not_or, Bool.not_eq_true', Bool.not_eq_false, ne_eq, not_not] at h1
    refine ⟨⟨h1.2.1, h1.2.2.1, ?_⟩, by simpa using h1.2.2.2⟩
  · simp only [if_pos h3, isPkLen]; simp only [not_and_or, not_not] at h4
    rcases h4 with h | h <;> simp [h]
  · rw [if_neg h3]; simpa using ‹¬bytes.length ≠ hash160Len›

theorem p2shInput_of_fits (hok : (wallyScriptpubkeyP2shFromBytes c bytes flags out).ret = .ok)
    (hw : (wallyScriptpubkeyP2shFromBytes c bytes flags out).written ≤ out.length) :
    P2shInput bytes flags ∧ out ≠ [] := by
  unfold wallyScriptpubkeyP2shFromBytes at hok hw
  dsimp only at hok hw
  split_ifs at hok hw with h1 h2 h3 h4
  all_goals try simp only [reduceCtorEq] at hok hw
  · omega
  · simp only [not_or, ne_eq, not_not, not_and] at h1 h2
    exact ⟨⟨h1.1, h1.2.1, h2⟩, by simpa using h1.2.2⟩
  · exact absurd hok h4

theorem opReturnInput_of_fits {maxLen : Nat}
    (hok : (wallyScriptpubkeyOpReturnFromBytes maxLen c bytes flags out).ret = .ok) :
    bytes.length ≤ maxLen ∧ flags = 0 ∧ out ≠ [] := by
  unfold wallyScriptpubkeyOpReturnFromBytes at hok
  dsimp only at hok
  split_ifs at hok with h
  all_goals try simp only [reduceCtorEq] at hok
  all_goals simp only [not_or] at h; exact ⟨by omega, by simpa using h.2.1, by simpa using h.2.2⟩

theorem multisigInput_of_fits {threshold : Nat}
    (hok : (wallyScriptpubkeyMultisigFromBytes bytes threshold flags out).ret = .ok)
    (hw : (wallyScriptpubkeyMultisigFromBytes bytes threshold flags out).written ≤ out.length) :
    MultisigInput bytes threshold flags ∧ out ≠ [] := by
  unfold wallyScriptpubkeyMultisigFromBytes at hok hw
  dsimp only at hok hw
  split_ifs at hok hw with h1 h2
  all_goals try simp only [reduceCtorEq] at hok hw
  · omega
  · simp only [not_or] at h1
    refine ⟨⟨?_, ?_, ?_, ?_, ?_, ?_⟩, ?_⟩ <;> simp_all <;> omega

theorem csvInput_of_fits {csvBlocks : Nat}
    (hok : (wallyScriptpubkeyCsv2of2Then1FromBytes bytes csvBlocks flags out).ret = .ok) :
    CsvInput bytes csvBlocks flags := by
  unfold wallyScriptpubkeyCsv2of2Then1FromBytes at hok
  dsimp only at hok
  split_ifs at hok with h
  all_goals try simp only [reduceCtorEq] at hok
  all_goals simp only [not_or, not_lt, ne_eq, not_not] at h; exact ⟨h.1, h.2.1, h.2.2.1, h.2.2.2⟩

theorem csvOptInput_of_fits {csvBlocks : Nat}
    (hok : (wallyScriptpubkeyCsv2of2Then1FromBytesOpt bytes csvBlocks flags out).ret = .ok) :
    CsvInput bytes csvBlocks flags := by
  unfold wallyScriptpubkeyCsv2of2Then1FromBytesOpt at hok
  dsimp only at hok
  split_ifs at hok with h
  all_goals try simp only [reduceCtorEq] at hok
  all_goals simp only [not_or, not_lt, ne_eq, not_not] at h; exact ⟨h.1, h.2.1, h.2.2.1, h.2.2.2⟩

theorem p2trKey_error {e : Ret} (h : p2trKey c bytes flags = .error e) : e ≠ .ok := by
  unfold p2trKey at h
  split_ifs at h
  · cases ht : c.bip341Tweak bytes flags with
    | error e' => rw [ht] at h; cases h; exact c.bip341Tweak_error _ _ _ ht
    | ok t => rw [ht] at h; cases h

theorem p2trInput_of_fits {extraFlags : UInt32}
    (hok : (wallyScriptpubkeyP2trFromBytes c extraFlags bytes flags out).ret = .ok)
    (hw : (wallyScriptpubkeyP2trFromBytes c extraFlags bytes flags out).written ≤ out.length) :
    P2trInput c extraFlags bytes flags := by
  unfold wallyScriptpubkeyP2trFromBytes at hok hw
  split_ifs at hok hw with h1 h2
  all_goals try simp only [reduceCtorEq] at hok hw
  · omega
  · split at hok
    · exact absurd hok (p2trKey_error ‹_›)
    · rename_i key hk
      split_ifs at hok with h3
      all_goals try simp only [reduceCtorEq] at hok
      exact ⟨by simpa using h1, key, hk, by simpa using h3⟩

theorem witnessProgramInput_of_fits {version : Nat} (hp : flags &&& wallyScriptAsPush = 0)
    (hok : (wallyWitnessProgramFromBytesAndVersion c bytes version flags out).ret = .ok) :
    WitnessProgramInput bytes version flags ∧ out ≠ [] := by
  unfold wallyWitnessProgramFromBytesAndVersion at hok
  split_ifs at hok with h1 h2 h3
  all_goals try simp only [reduceCtorEq] at hok
  simp only [not_or, Bool.not_eq_true', Bool.not_eq_false'] at h1
  exact ⟨⟨by omega, by simpa using h1.2.1, hp, by simpa using h2⟩, by simpa using h1.2.2⟩

end Inversion

end WallyScript
