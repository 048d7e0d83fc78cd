import WallyScript.Agreement
import WallyScript.Witness
import WallyScript.Pegout

/-!
# The two-phase sizing contract

Every builder of `script.c` writes into the caller's buffer `bytes_out` of `len` bytes and reports
through `*written`. This module states, as predicates on the function `Bytes → Outcome` that runs a
builder on a buffer (its length is `len`), what a builder promises for every buffer at once:

* `Fails run`: on every nonempty buffer the call fails with one error, reports nothing and stores
  nothing;
* `KeepsSizing run`, the two-phase contract: `Fails run`, or there is one image whose size the call
  reports on every nonempty buffer, storing it exactly when the buffer holds it;
* `FillsAt run img`: on every buffer that holds `img` the call stores it and reports its size;
* `SizesFrom k run`: `Fails run`, or there is one image whose size the call reports with
  `WALLY_OK` on every buffer of at least `k` bytes and which it stores on every buffer that holds
  it;
* `ChecksCapacity run`: `Fails run`, or there is one image the call stores on every buffer that
  holds it, failing with `WALLY_EINVAL` and storing nothing on every other.

Which one a builder keeps follows from where its capacity check stands:

* `wally_script_push_from_bytes`, P2SH, bare multisig, the multisig scriptSig and both CSV
  templates check their input first and keep the contract on every input;
* P2PKH and P2TR answer the size before they check the key, and keep the contract on every input
  whose key passes that check (`P2pkhKeyLen`, a key of 32 bytes after `p2trKey`);
* `OP_RETURN` and witness programs store a byte in front of their push whatever its size and fail
  on a 1-byte buffer (on a 2-byte one too with `WALLY_SCRIPT_AS_PUSH`): on every larger buffer
  they report their size, and they fill every buffer that holds their image;
* the P2PKH scriptSig builders refuse a buffer too small for their two pushes;
* the peg-out builder probes once per push (`WallyScript.Pegout`) and fills every buffer of
  `wally_elements_pegout_script_size` bytes.
-/

namespace WallyScript

/-! ### The contract -/

/-- On every nonempty buffer the call fails with one error, reporting nothing and storing
nothing. -/
def Fails (run : Bytes → Outcome) : Prop :=
  ∃ e, e ≠ .ok ∧ ∀ out, out ≠ [] → run out = ⟨e, 0, out⟩

/-- **The two-phase sizing contract.** The call fails alike on every nonempty buffer, or it has one
image whose size it reports on every nonempty buffer, storing it exactly when the buffer holds it
and leaving the buffer untouched otherwise. -/
def KeepsSizing (run : Bytes → Outcome) : Prop :=
  Fails run ∨ ∃ img : Bytes, ∀ out, out ≠ [] → run out = .sized img out

/-- On every buffer that holds `img` the call stores it and reports its size. -/
def FillsAt (run : Bytes → Outcome) (img : Bytes) : Prop :=
  ∀ out, img.length ≤ out.length → run out = .sized img out

/-- The contract on buffers of at least `k` bytes, what the call stores on smaller ones left
aside: the call fails alike on every nonempty buffer, or it has one image whose size it reports
with `WALLY_OK` on every buffer of at least `k` bytes and which it stores on every buffer that
holds it. -/
def SizesFrom (k : Nat) (run : Bytes → Outcome) : Prop :=
  Fails run ∨ ∃ img : Bytes,
    (∀ out, k ≤ out.length → (run out).ret = .ok ∧ (run out).written = img.length) ∧
      FillsAt run img

/-- The call fails alike on every nonempty buffer, or it stores one image on every buffer that
holds it and fails with `WALLY_EINVAL`, storing nothing, on every other. -/
def ChecksCapacity (run : Bytes → Outcome) : Prop :=
  Fails run ∨ ∃ img : Bytes, ∀ out, run out =
    if out.length < img.length then ⟨.einval, 0, out⟩ else ⟨.ok, img.length, out.write 0 img⟩

/-! ### Inputs a builder refuses -/

section Refused

variable {c : Collab} {bytes : Bytes} {flags : UInt32}

theorem wallyScriptpubkeyP2shFromBytes_einval (h : ¬P2shInput bytes flags) (out : Bytes) :
    wallyScriptpubkeyP2shFromBytes c bytes flags out = ⟨.einval, 0, out⟩ := by
  unfold wallyScriptpubkeyP2shFromBytes
  dsimp only
  split_ifs with h1 h2 <;> try rfl
  all_goals simp only [not_or, not_and, not_not] at h1 h2; exact absurd ⟨h1.1, h1.2.1, h2⟩ h

theorem wallyScriptpubkeyMultisigFromBytes_einval {threshold : Nat}
    (h : ¬MultisigInput bytes threshold flags) (out : Bytes) :
    wallyScriptpubkeyMultisigFromBytes bytes threshold flags out = ⟨.einval, 0, out⟩ := by
  unfold wallyScriptpubkeyMultisigFromBytes
  dsimp only
  rw [if_pos]
  by_contra hc
  simp only [not_or, ne_eq, not_not, not_lt, gt_iff_lt] at hc
  exact h ⟨hc.2.1, hc.2.2.1, hc.2.2.2.1, hc.2.2.2.2.1, hc.2.2.2.2.2.2.1, hc.2.2.2.2.2.2.2.1⟩

theorem wallyScriptpubkeyCsv2of2Then1FromBytes_einval {csvBlocks : Nat}
    (h : ¬CsvInput bytes csvBlocks flags) (out : Bytes) :
    wallyScriptpubkeyCsv2of2Then1FromBytes bytes csvBlocks flags out = ⟨.einval, 0, out⟩ := by
  simp only [CsvInput, not_and_or, not_le] at h
  simp only [wallyScriptpubkeyCsv2of2Then1FromBytes, if_pos h]

theorem wallyScriptpubkeyCsv2of2Then1FromBytesOpt_einval {csvBlocks : Nat}
    (h : ¬CsvInput bytes csvBlocks flags) (out : Bytes) :
    wallyScriptpubkeyCsv2of2Then1FromBytesOpt bytes csvBlocks flags out = ⟨.einval, 0, out⟩ := by
  simp only [CsvInput, not_and_or, not_le] at h
  simp only [wallyScriptpubkeyCsv2of2Then1FromBytesOpt, if_pos h]

end Refused

/-! ### The builders that keep the contract -/

section Keeps

variable {c : Collab}

theorem keepsSizing_push (bytes : Bytes) (flags : UInt32) :
    KeepsSizing fun out => wallyScriptPushFromBytes c bytes flags out 0 out.length := by
  by_cases hf : scriptFlagsOk flags 0 = true
  · exact .inr ⟨_, fun out hout => wallyScriptPushFromBytes_eq hf (by simpa using hout)⟩
  · exact .inl ⟨.einval, by decide, fun out _ =>
      wallyScriptPushFromBytes_einval (.inl (by simpa using hf))⟩

theorem keepsSizing_p2sh (bytes : Bytes) (flags : UInt32) :
    KeepsSizing (wallyScriptpubkeyP2shFromBytes c bytes flags) := by
  by_cases h : P2shInput bytes flags
  · exact .inr ⟨_, fun out hout => wallyScriptpubkeyP2shFromBytes_eq h hout⟩
  · exact .inl ⟨.einval, by decide, fun out _ => wallyScriptpubkeyP2shFromBytes_einval h out⟩

theorem keepsSizing_multisig (bytes : Bytes) (threshold : Nat) (flags : UInt32) :
    KeepsSizing (wallyScriptpubkeyMultisigFromBytes bytes threshold flags) := by
  by_cases h : MultisigInput bytes threshold flags
  · exact .inr ⟨_, fun out hout => wallyScriptpubkeyMultisigFromBytes_eq h hout⟩
  · exact .inl ⟨.einval, by decide, fun out _ => wallyScriptpubkeyMultisigFromBytes_einval h out⟩

theorem keepsSizing_scriptsigMultisig (script bytes : Bytes) (sighash : List UInt32)
    (flags : UInt32) : KeepsSizing (wallyScriptsigMultisigFromBytes c script bytes sighash flags) := by
  by_cases h : MultisigSigInput script bytes sighash flags
  · cases hd : multisigDers c (bytes.chunks ecSignatureLen (bytes.length / ecSignatureLen)) sighash with
    | ok ders => exact .inr ⟨_, fun out _ => wallyScriptsigMultisigFromBytes_eq h hd out⟩
    | error e => exact .inl ⟨.einval, by decide, fun out _ =>
        wallyScriptsigMultisigFromBytes_einval (.inr ⟨e, hd⟩) out⟩
  · exact .inl ⟨.einval, by decide, fun out _ => wallyScriptsigMultisigFromBytes_einval (.inl h) out⟩

theorem keepsSizing_csv2of2Then1 (bytes : Bytes) (csvBlocks : Nat) (flags : UInt32) :
    KeepsSizing (wallyScriptpubkeyCsv2of2Then1FromBytes bytes csvBlocks flags) := by
  by_cases h : CsvInput bytes csvBlocks flags
  · exact .inr ⟨_, fun out _ => wallyScriptpubkeyCsv2of2Then1FromBytes_eq h out⟩
  · exact .inl ⟨.einval, by decide, fun out _ => wallyScriptpubkeyCsv2of2Then1FromBytes_einval h out⟩

theorem keepsSizing_csv2of2Then1Opt (bytes : Bytes) (csvBlocks : Nat) (flags : UInt32) :
    KeepsSizing (wallyScriptpubkeyCsv2of2Then1FromBytesOpt bytes csvBlocks flags) := by
  by_cases h : CsvInput bytes csvBlocks flags
  · exact .inr ⟨_, fun out _ => wallyScriptpubkeyCsv2of2Then1FromBytesOpt_eq h out⟩
  · exact .inl ⟨.einval, by decide, fun out _ =>
      wallyScriptpubkeyCsv2of2Then1FromBytesOpt_einval h out⟩

/-- The key check of `wally_scriptpubkey_p2pkh_from_bytes` passes: a 33- or 65-byte key with
`WALLY_SCRIPT_HASH160`, a 20-byte hash without. -/
def P2pkhKeyLen (bytes : Bytes) (flags : UInt32) : Prop :=
  if flags &&& wallyScriptHash160 ≠ 0 then isPkLen bytes.length = true
  else bytes.length = hash160Len

instance (bytes : Bytes) (flags : UInt32) : Decidable (P2pkhKeyLen bytes flags) := by
  unfold P2pkhKeyLen; infer_instance

/-- P2PKH answers the size before it checks the key, so it keeps the contract on keys that pass
the check. -/
theorem keepsSizing_p2pkh {bytes : Bytes} {flags : UInt32} (hk : P2pkhKeyLen bytes flags) :
    KeepsSizing (wallyScriptpubkeyP2pkhFromBytes c bytes flags) := by
  by_cases hf : scriptFlagsOk flags 0 = true ∧ flags &&& wallyScriptSha256 = 0
  · exact .inr ⟨_, fun out hout => wallyScriptpubkeyP2pkhFromBytes_eq ⟨hf.1, hf.2, hk⟩ hout⟩
  · refine .inl ⟨.einval, by decide, fun out _ => ?_⟩
    unfold wallyScriptpubkeyP2pkhFromBytes
    rw [if_pos]
    rcases not_and_or.mp hf with hf | hf
    · exact .inr (.inl (by simpa using hf))
    · exact .inr (.inr (.inl hf))

/-- P2TR answers the size before it tweaks the key, so it keeps the contract on keys that come
out of `p2trKey` with 32 bytes. -/
theorem keepsSizing_p2tr {extraFlags : UInt32} {bytes : Bytes} {flags : UInt32} {key : Bytes}
    (hk : p2trKey c bytes flags = .ok key) (h32 : key.length = ecXonlyPublicKeyLen) :
    KeepsSizing (wallyScriptpubkeyP2trFromBytes c extraFlags bytes flags) := by
  by_cases hf : flags &&& ~~~extraFlags = 0
  · exact .inr ⟨_, fun out _ => wallyScriptpubkeyP2trFromBytes_eq hf hk h32 out⟩
  · exact .inl ⟨.einval, by decide, fun out _ => by simp [wallyScriptpubkeyP2trFromBytes, hf]⟩

end Keeps

/-! ### The builders that report their size from two bytes on -/

section Fills

variable {c : Collab}

theorem sizesFrom_opReturn (maxOpReturnLen : Nat) (bytes : Bytes) (flags : UInt32) :
    SizesFrom 2 (wallyScriptpubkeyOpReturnFromBytes maxOpReturnLen c bytes flags) := by
  by_cases h : bytes.length ≤ maxOpReturnLen ∧ flags = 0
  · obtain ⟨hb, rfl⟩ := h
    have hI : (opReturnImage bytes).length = (pushScript bytes).length + 1 := rfl
    have h1 := one_le_length_pushScript bytes
    refine .inr ⟨opReturnImage bytes, fun out hk => ?_, fun out hfit => ?_⟩
    · -- from two bytes on, the size answer or the store
      rw [wallyScriptpubkeyOpReturnFromBytes_eq hb (List.ne_nil_of_length_pos (by omega)),
        if_neg (by omega)]
      split_ifs <;> exact ⟨rfl, rfl⟩
    · rw [wallyScriptpubkeyOpReturnFromBytes_eq hb (List.ne_nil_of_length_pos (by omega)),
        if_neg (by omega), if_neg (by omega), Outcome.sized, Outcome.sizedAt, if_neg (by omega)]
  · refine .inl ⟨.einval, by decide, fun out _ => ?_⟩
    simp only [not_and_or, not_le] at h
    simp only [wallyScriptpubkeyOpReturnFromBytes, if_pos (Or.imp_right Or.inl h)]

theorem sizesFrom_witnessProgram (bytes : Bytes) (version : Nat) (flags : UInt32) :
    SizesFrom (if flags &&& wallyScriptAsPush = 0 then 2 else 3)
      (wallyWitnessProgramFromBytesAndVersion c bytes version flags) := by
  by_cases h : version ≤ 16 ∧ scriptFlagsOk flags wallyScriptAsPush = true ∧
      witnessProgramLengthBad bytes version flags = false
  · exact .inr ⟨_, fun out hk => wallyWitnessProgramFromBytesAndVersion_reports h.1 h.2.1 h.2.2 hk,
      fun out hfit => wallyWitnessProgramFromBytesAndVersion_fits h.1 h.2.1 h.2.2 hfit⟩
  · refine .inl ⟨.einval, by decide, fun out _ => ?_⟩
    simp only [not_and_or, not_le, Bool.not_eq_true] at h
    rcases h with h | h | h <;> simp [wallyWitnessProgramFromBytesAndVersion, h]

/-- The peg-out builder fills every buffer of `wally_elements_pegout_script_size` bytes. -/
theorem fillsAt_pegout (genesisBlockhash mainchainScript subPubkey whitelistproof : Bytes)
    (flags : UInt32) :
    Fails (wallyElementsPegoutScriptFromBytes c genesisBlockhash mainchainScript subPubkey
        whitelistproof flags) ∨
      ∃ img : Bytes, img.length = wallyElementsPegoutScriptSize genesisBlockhash.length
          mainchainScript.length subPubkey.length whitelistproof.length ∧
        FillsAt (wallyElementsPegoutScriptFromBytes c genesisBlockhash mainchainScript subPubkey
          whitelistproof flags) img := by
  by_cases h : genesisBlockhash.length = sha256Len ∧ mainchainScript ≠ [] ∧
      subPubkey.length = ecPublicKeyLen ∧ whitelistproof ≠ [] ∧ flags = 0
  · obtain ⟨hg, hm, hs, hw, rfl⟩ := h
    exact .inr ⟨_, length_pegoutImage_four _ _ _ _, fun out hfit =>
      wallyElementsPegoutScriptFromBytes_fits hg hm hs hw hfit⟩
  · refine .inl ⟨.einval, by decide, fun out _ => ?_⟩
    rw [wallyElementsPegoutScriptFromBytes, if_pos]
    simp only [not_and_or, not_not, ← ne_eq] at h
    tauto

end Fills

/-! ### The builders that refuse small buffers -/

section Checks

variable {c : Collab}

theorem checksCapacity_p2pkhFromDer (pubKey sig : Bytes) :
    ChecksCapacity (wallyScriptsigP2pkhFromDer c pubKey sig) := by
  by_cases h : P2pkhSigInput pubKey sig
  · exact .inr ⟨_, fun out => wallyScriptsigP2pkhFromDer_eq h out⟩
  · exact .inl ⟨.einval, by decide, fun out _ => wallyScriptsigP2pkhFromDer_einval h out⟩

theorem checksCapacity_p2pkhFromSig (pubKey sig : Bytes) (sighash : UInt32) :
    ChecksCapacity (wallyScriptsigP2pkhFromSig c pubKey sig sighash) := by
  unfold wallyScriptsigP2pkhFromSig
  by_cases hs : sighash &&& 0xffffff00 = 0
  · simp only [hs, ne_eq, not_true_eq_false, if_false]
    cases c.sigToDer sig with
    | none => exact .inl ⟨.einval, by decide, fun _ _ => rfl⟩
    | some der => exact checksCapacity_p2pkhFromDer pubKey _
  · simp only [ne_eq, hs, not_false_eq_true, if_true]
    exact .inl ⟨.einval, by decide, fun _ _ => rfl⟩

end Checks

/-! ### All builders -/

/-- **Sizing.** `wally_script_push_from_bytes`, P2SH, bare multisig, the multisig scriptSig and
both CSV templates keep the two-phase contract on every input, and P2PKH and P2TR on every input
whose key passes their check. `OP_RETURN` and witness programs report the size of their image on
every buffer of at least two bytes (three for a witness program with `WALLY_SCRIPT_AS_PUSH`) and
fill every buffer that holds it; the peg-out script fills every buffer of
`wally_elements_pegout_script_size` bytes. The P2PKH scriptSig builders fill every buffer that
holds their image and fail with `WALLY_EINVAL` on every other. -/
theorem sizing_contract (maxOpReturnLen : Nat) (c : Collab) (extraFlags : UInt32) :
    (∀ bytes flags, KeepsSizing fun out => wallyScriptPushFromBytes c bytes flags out 0 out.length) ∧
    (∀ bytes flags, KeepsSizing (wallyScriptpubkeyP2shFromBytes c bytes flags)) ∧
    (∀ bytes threshold flags, KeepsSizing (wallyScriptpubkeyMultisigFromBytes bytes threshold flags)) ∧
    (∀ script bytes sighash flags,
      KeepsSizing (wallyScriptsigMultisigFromBytes c script bytes sighash flags)) ∧
    (∀ bytes csvBlocks flags,
      KeepsSizing (wallyScriptpubkeyCsv2of2Then1FromBytes bytes csvBlocks flags)) ∧
    (∀ bytes csvBlocks flags,
      KeepsSizing (wallyScriptpubkeyCsv2of2Then1FromBytesOpt bytes csvBlocks flags)) ∧
    (∀ bytes flags, P2pkhKeyLen bytes flags →
      KeepsSizing (wallyScriptpubkeyP2pkhFromBytes c bytes flags)) ∧
    (∀ bytes flags key, p2trKey c bytes flags = .ok key → key.length = ecXonlyPublicKeyLen →
      KeepsSizing (wallyScriptpubkeyP2trFromBytes c extraFlags bytes flags)) ∧
    (∀ bytes flags, SizesFrom 2 (wallyScriptpubkeyOpReturnFromBytes maxOpReturnLen c bytes flags)) ∧
    (∀ bytes version flags, SizesFrom (if flags &&& wallyScriptAsPush = 0 then 2 else 3)
      (wallyWitnessProgramFromBytesAndVersion c bytes version flags)) ∧
    (∀ genesisBlockhash mainchainScript subPubkey whitelistproof flags,
      Fails (wallyElementsPegoutScriptFromBytes c genesisBlockhash mainchainScript subPubkey
          whitelistproof flags) ∨
        ∃ img : Bytes, img.length = wallyElementsPegoutScriptSize genesisBlockhash.length
            mainchainScript.length subPubkey.length whitelistproof.length ∧
          FillsAt (wallyElementsPegoutScriptFromBytes c genesisBlockhash mainchainScript subPubkey
            whitelistproof flags) img) ∧
    (∀ pubKey sig, ChecksCapacity (wallyScriptsigP2pkhFromDer c pubKey sig)) ∧
    (∀ pubKey sig sighash, ChecksCapacity (wallyScriptsigP2pkhFromSig c pubKey sig sighash)) :=
  ⟨keepsSizing_push, keepsSizing_p2sh, keepsSizing_multisig, keepsSizing_scriptsigMultisig,
    keepsSizing_csv2of2Then1, keepsSizing_csv2of2Then1Opt, fun _ _ => keepsSizing_p2pkh,
    fun _ _ _ => keepsSizing_p2tr, sizesFrom_opReturn maxOpReturnLen,
    sizesFrom_witnessProgram, fillsAt_pegout, checksCapacity_p2pkhFromDer,
    checksCapacity_p2pkhFromSig⟩

theorem sizing_contract_keys :
    P2pkhKeyLen (List.replicate 20 7) 0 ∧
      KeepsSizing (wallyScriptpubkeyP2pkhFromBytes sampleCollab (List.replicate 20 7) 0) ∧
    p2trKey sampleCollab (List.replicate 32 5) 0 = .ok (List.replicate 32 5) ∧
      (List.replicate 32 5).length = ecXonlyPublicKeyLen ∧
      KeepsSizing (wallyScriptpubkeyP2trFromBytes sampleCollab 0 (List.replicate 32 5) 0) := by
  have hp : P2pkhKeyLen (List.replicate 20 7) 0 := by decide
  have hk : p2trKey sampleCollab (List.replicate 32 5) 0 = .ok (List.replicate 32 5) := rfl
  have h32 : (List.replicate 32 5).length = ecXonlyPublicKeyLen := rfl
  exact ⟨hp, (sizing_contract 80 sampleCollab 0).2.2.2.2.2.2.1 _ _ hp, hk, h32,
    (sizing_contract 80 sampleCollab 0).2.2.2.2.2.2.2.1 _ _ _ hk h32⟩

set_option maxRecDepth 4000 in
/-- Calls whose outcome depends on the capacity below the size they report. The P2PKH scriptSig
builder refuses a 1-byte buffer on an input it fills 36 bytes from; the peg-out builder reports
34 bytes on a 2-byte buffer and 72 on a large one. `OP_RETURN` and a witness program fail on a
1-byte buffer and answer their size on a 2-byte one, where they store their first byte. P2PKH
with a 21-byte hash and P2TR with a 31-byte key answer their size on a 1-byte buffer and fail on
one that holds it. -/
theorem sizing_depends_on_capacity :
    wallyScriptsigP2pkhFromDer sampleCollab (List.replicate 33 2) [1] [0] = ⟨.einval, 0, [0]⟩ ∧
    (wallyScriptsigP2pkhFromDer sampleCollab (List.replicate 33 2) [1]
      (List.replicate 36 0)).ret = .ok ∧
    wallyElementsPegoutScriptFromBytes sampleCollab (List.replicate 32 0) [op1]
      (List.replicate 33 2) [0] 0 [0, 0] = ⟨.ok, 34, [opReturn, 0]⟩ ∧
    (wallyElementsPegoutScriptFromBytes sampleCollab (List.replicate 32 0) [op1]
      (List.replicate 33 2) [0] 0 (List.replicate 72 0)).written = 72 ∧
    wallyScriptpubkeyOpReturnFromBytes 80 sampleCollab [7] 0 [0] = ⟨.einval, 0, [0]⟩ ∧
    wallyScriptpubkeyOpReturnFromBytes 80 sampleCollab [7] 0 [0, 0] = ⟨.ok, 3, [opReturn, 0]⟩ ∧
    wallyWitnessProgramFromBytesAndVersion sampleCollab (List.replicate 20 7) 1 0 [0] =
      ⟨.einval, 0, [op1]⟩ ∧
    wallyWitnessProgramFromBytesAndVersion sampleCollab (List.replicate 20 7) 1 0 [0, 0] =
      ⟨.ok, 22, [op1, 0]⟩ ∧
    wallyScriptpubkeyP2pkhFromBytes sampleCollab (List.replicate 21 7) 0 [0] = ⟨.ok, 25, [0]⟩ ∧
    (wallyScriptpubkeyP2pkhFromBytes sampleCollab (List.replicate 21 7) 0
      (List.replicate 25 0)).ret = .einval ∧
    wallyScriptpubkeyP2trFromBytes sampleCollab 0 (List.replicate 31 5) 0 [0] = ⟨.ok, 34, [0]⟩ ∧
    (wallyScriptpubkeyP2trFromBytes sampleCollab 0 (List.replicate 31 5) 0
      (List.replicate 34 0)).ret = .einval := by
  refine ⟨by decide, by decide, by decide, by decide, by decide, by decide, by decide, by decide,
    by decide, by decide, by decide, by decide⟩

set_option maxRecDepth 4000 in
/-- A witness program of version 1 on a 1-byte buffer fails with `OP_1` stored, and the peg-out
builder on a buffer that ends after the genesis-hash push fails with 34 bytes reported. -/
theorem failed_builds_leave_output :
    wallyWitnessProgramFromBytesAndVersion sampleCollab (List.replicate 20 7) 1 0 [0] =
      ⟨.einval, 0, [op1]⟩ ∧
    (wallyElementsPegoutScriptFromBytes sampleCollab (List.replicate 32 0) [op1]
      (List.replicate 33 2) [0] 0 (List.replicate 34 0)).ret = .einval ∧
    (wallyElementsPegoutScriptFromBytes sampleCollab (List.replicate 32 0) [op1]
      (List.replicate 33 2) [0] 0 (List.replicate 34 0)).written = 34 := by
  refine ⟨by decide, by decide, by decide⟩

end WallyScript
