import WallyScript.PeginRewrite
import WallyScript.Witness
import WallyScript.Pegout

/-!
# The peg scripts as scripts

The Elements builders of `script.c` produce scripts that the rest of the library reads: the
peg-out script of `wally_elements_pegout_script_from_bytes` is an output script, and the peg-in
contract of `wally_elements_pegin_contract_script_from_bytes` stands in for a federation's
redeem script. This module reads both back with the library's own readers.

A federation's redeem script is a bare multisig script, and the peg-in contract tweaks its
33-byte keys (`PeginRewrite.lean`). The peg-in walk reads a multisig script as the classifier
does: `OP_m`, `OP_n` and `OP_CHECKMULTISIG` start no push and are single tokens, and every key
push is one token (`scriptTokens_multisig`, in `PeginRewrite.lean`). None of them is `OP_ELSE`, so the
rewrite reaches every key; a rewritten key push is the header `0x21` and a 33-byte
serialisation, again a key push (`peginRewrite_keyPushes`), and the opcodes are copied
(`peginRewrite_opcode`).

* `multisig_of_peginRewrite`: the rewrite of a multisig script's tokens is a multisig script;
* `pegin_keeps_multisig`: whenever the function returns `WALLY_OK` on a redeem script that
  `get_type` classifies as MULTISIG, it classifies the contract script it stores as MULTISIG;
* `pegout_script_reads_back`: on valid payloads and a buffer of
  `wally_elements_pegout_script_size` bytes, the peg-out script is classified OP_RETURN, and
  `scriptsig_to_witness` splits what follows `OP_RETURN` into the four payloads.
-/

namespace WallyScript

/-! ### The rewrite of a multisig script -/

section Rewrite

variable {tweak : Bytes → Option Bytes}

/-- An opcode that is not `OP_ELSE` is copied. -/
theorem peginRewrite_opcode {b : UInt8} (hb : b ≠ opElse) {ts ts' : List Bytes}
    (h : peginRewrite tweak ([b] :: ts) = some ts') :
    ∃ ts'', peginRewrite tweak ts = some ts'' ∧ ts' = [b] :: ts'' := by
  obtain ⟨t'', ts'', htr, hr, rfl⟩ :=
    (peginRewrite_cons_eq_some (by simpa using hb)).mp h
  have hk : tokenKey [b] = none := by simp [tokenKey, ecPublicKeyLen]
  unfold TokenRewrites at htr
  rw [hk] at htr
  exact ⟨ts'', hr, by rw [htr]⟩

variable (htw : ∀ key ser, tweak key = some ser → ser.length = ecPublicKeyLen)
include htw

/-- A rewritten key push is a key push. -/
theorem isKeyPush_of_tokenRewrites {e e' : Bytes} (he : IsKeyPush e)
    (h : TokenRewrites tweak e e') : IsKeyPush e' := by
  unfold TokenRewrites at h
  split at h
  · obtain ⟨ser, hser, rfl⟩ := h
    exact isKeyPush_key (htw _ _ hser)
  · rwa [h]

/-- Key pushes are rewritten into as many key pushes, and the rewrite goes on behind them. -/
theorem peginRewrite_keyPushes :
    ∀ {es tail ts' : List Bytes}, (∀ e ∈ es, IsKeyPush e) →
      peginRewrite tweak (es ++ tail) = some ts' →
      ∃ es' tail', ts' = es' ++ tail' ∧ es'.length = es.length ∧ (∀ e ∈ es', IsKeyPush e) ∧
        peginRewrite tweak tail = some tail'
  | [], _, ts', _, h => ⟨[], ts', rfl, rfl, by simp, h⟩
  | e :: es, tail, ts', hk, h => by
    have he := hk e (List.mem_cons_self _ _)
    have hne : e ≠ [opElse] := fun h' => by have := length_keyPush he; rw [h'] at this; simp at this
    obtain ⟨e', ts'', htr, hr, rfl⟩ := (peginRewrite_cons_eq_some hne).mp h
    obtain ⟨es', tail', rfl, hlen, hk', ht⟩ :=
      peginRewrite_keyPushes (fun e'' h'' => hk e'' (List.mem_cons_of_mem _ h'')) hr
    refine ⟨e' :: es', tail', rfl, by simp [hlen], ?_, ht⟩
    rintro x (_ | ⟨_, hx⟩)
    · exact isKeyPush_of_tokenRewrites htw he htr
    · exact hk' x hx

/-- **The rewrite keeps a multisig script.** The rewritten tokens of a script the multisig matcher
accepts make up a script it accepts. -/
theorem multisig_of_peginRewrite {r : Bytes} {ts' : List Bytes}
    (hr : scriptpubkeyIsMultisig r = true) (h : peginRewrite tweak (scriptTokens r) = some ts') :
    scriptpubkeyIsMultisig ts'.flatten = true := by
  obtain ⟨m, es, hm1, hm16, hn1, hn16, hkeys, rfl⟩ := scriptpubkeyIsMultisig_iff.mp hr
  have hopN : ∀ {v : Nat}, 1 ≤ v → v ≤ 16 → valueToOpN v ≠ opElse := fun h1 h16 he => by
    have := valueToOpN_toNat h1 h16; rw [he] at this; simp [opElse] at this; omega
  rw [scriptTokens_multisig hm1 hm16 hn1 hn16 hkeys] at h
  obtain ⟨ts'', h1, rfl⟩ := peginRewrite_opcode (hopN hm1 hm16) h
  obtain ⟨es', tail', rfl, hlen, hkeys', ht⟩ := peginRewrite_keyPushes htw hkeys h1
  obtain ⟨t1, ht1, rfl⟩ := peginRewrite_opcode (hopN hn1 hn16) ht
  obtain ⟨t2, ht2, rfl⟩ := peginRewrite_opcode (by decide : opCheckmultisig ≠ opElse) ht1
  cases ht2
  refine scriptpubkeyIsMultisig_iff.mpr ⟨m, es', hm1, hm16, by omega, by omega, hkeys', ?_⟩
  simp [hlen]

end Rewrite

/-! ### The function -/

/-- **The peg-in contract of a multisig script is a multisig script.** On every redeem script
that `get_type` classifies as MULTISIG, every contract and every buffer of the redeem script's
length, when the function returns `WALLY_OK` the buffer holds a script that `get_type` also
classifies as MULTISIG. -/
theorem pegin_keeps_multisig (c : Collab) {r script out : Bytes} {flags : UInt32}
    (hm : wallyScriptpubkeyGetType r = (.ok, .multisig)) (hlen : out.length = r.length)
    (hok : (wallyElementsPeginContractScriptFromBytes c r script flags out).ret = .ok) :
    wallyScriptpubkeyGetType (wallyElementsPeginContractScriptFromBytes c r script flags out).mem =
      (.ok, .multisig) := by
  have hr := getType_eq_multisig_iff.mp hm
  have hne : r ≠ [] := by rintro rfl; simp [scriptpubkeyIsMultisig] at hr
  by_cases hbad : script = [] ∨ flags ≠ 0
  · rw [wallyElementsPeginContractScriptFromBytes_einval hbad] at hok
    cases hok
  simp only [not_or, ne_eq, not_not] at hbad
  obtain ⟨hs, rfl⟩ := hbad
  have htw : ∀ key ser, peginTweak c key script = some ser → ser.length = ecPublicKeyLen :=
    fun _ _ => length_of_peginTweak
  have href := @peginLoop_refines c script _ r out 0 le_rfl hne
  cases hrw : peginRewrite (peginTweak c · script) (scriptTokens r) with
  | none =>
    obtain ⟨mem, hl⟩ := peginRefines_none.mp (hrw ▸ href)
    rw [wallyElementsPeginContractScriptFromBytes_of_error hne hs hlen hl] at hok
    cases hok
  | some ts' =>
    have hl := peginRefines_some.mp (hrw ▸ href)
    have hlen' := length_peginRewrite htw hrw
    rw [flatten_scriptTokens] at hlen'
    rw [wallyElementsPeginContractScriptFromBytes_of_ok hne hs hlen hl, Bytes.write_zero,
      List.drop_eq_nil_of_le (by omega), List.append_nil]
    exact getType_eq_multisig_iff.mpr (multisig_of_peginRewrite htw hr hrw)

/-- A 1-of-1 multisig script whose key the contract `[1]` tweaks. -/
theorem pegin_keeps_multisig_tweaked :
    wallyScriptpubkeyGetType (multisigImage 1 [List.replicate 33 3]) = (.ok, .multisig) ∧
    (List.replicate 37 0 : Bytes).length = (multisigImage 1 [List.replicate 33 3]).length ∧
    (wallyElementsPeginContractScriptFromBytes tweakCollab (multisigImage 1 [List.replicate 33 3])
      [1] 0 (List.replicate 37 0)).ret = .ok ∧
    wallyScriptpubkeyGetType (wallyElementsPeginContractScriptFromBytes tweakCollab
      (multisigImage 1 [List.replicate 33 3]) [1] 0 (List.replicate 37 0)).mem = (.ok, .multisig) := by
  have hm : wallyScriptpubkeyGetType (multisigImage 1 [List.replicate 33 3]) = (.ok, .multisig) := by
    decide
  have hlen : (List.replicate 37 0 : Bytes).length = (multisigImage 1 [List.replicate 33 3]).length :=
    rfl
  have htok : scriptTokens (multisigImage 1 [List.replicate 33 3]) =
      [valueToOpN 1] :: ([UInt8.ofNat ecPublicKeyLen :: List.replicate 33 3] ++
        [[valueToOpN 1], [opCheckmultisig]]) :=
    @scriptTokens_multisig 1 [UInt8.ofNat ecPublicKeyLen :: List.replicate 33 3] (by decide)
      (by decide) (by decide) (by decide) fun e he => by
        rw [List.mem_singleton] at he
        exact he ▸ isKeyPush_key (by decide)
  have href := @peginLoop_refines tweakCollab [1] _ (multisigImage 1 [List.replicate 33 3])
    (List.replicate 37 0) 0 le_rfl (by simp [multisigImage])
  rw [htok] at href
  have hok : (wallyElementsPeginContractScriptFromBytes tweakCollab
      (multisigImage 1 [List.replicate 33 3]) [1] 0 (List.replicate 37 0)).ret = .ok := by
    rw [wallyElementsPeginContractScriptFromBytes_of_ok (by simp [multisigImage]) (by simp) hlen
      (peginRefines_some.mp href)]
  exact ⟨hm, hlen, hok, pegin_keeps_multisig tweakCollab hm hlen hok⟩

/-! ### The peg-out script -/

/-- **The peg-out script reads back.** On valid payloads of fewer than `2 ^ 32` bytes each and
every buffer of at least `wally_elements_pegout_script_size` bytes, the builder returns `WALLY_OK`
with that size; `get_type` classifies what it stored as OP_RETURN, and `scriptsig_to_witness`
splits the bytes after `OP_RETURN` into the genesis block hash, the mainchain script, the
sub-pubkey and the whitelist proof. -/
theorem pegout_script_reads_back (c : Collab) {genesisBlockhash mainchainScript subPubkey
    whitelistproof out : Bytes} (hg : genesisBlockhash.length = sha256Len)
    (hm : mainchainScript ≠ []) (hs : subPubkey.length = ecPublicKeyLen) (hw : whitelistproof ≠ [])
    (hm32 : mainchainScript.length < 2 ^ 32) (hw32 : whitelistproof.length < 2 ^ 32)
    (hfit : wallyElementsPegoutScriptSize genesisBlockhash.length mainchainScript.length
      subPubkey.length whitelistproof.length ≤ out.length) :
    let o := wallyElementsPegoutScriptFromBytes c genesisBlockhash mainchainScript subPubkey
      whitelistproof 0 out
    o.ret = .ok ∧
      o.written = wallyElementsPegoutScriptSize genesisBlockhash.length mainchainScript.length
        subPubkey.length whitelistproof.length ∧
      wallyScriptpubkeyGetType (o.mem.take o.written) = (.ok, .opReturn) ∧
      scriptsigToWitness ((o.mem.take o.written).drop 1) =
        .ok [genesisBlockhash, mainchainScript, subPubkey, whitelistproof] := by
  intro o
  rw [← length_pegoutImage_four] at hfit ⊢
  have ho : o = .sized (pegoutImage [genesisBlockhash, mainchainScript, subPubkey, whitelistproof])
      out := wallyElementsPegoutScriptFromBytes_fits hg hm hs hw hfit
  have h32 : ∀ q ∈ [genesisBlockhash, mainchainScript, subPubkey, whitelistproof],
      q.length < 2 ^ 32 := by
    simp only [List.mem_cons, List.mem_singleton, List.not_mem_nil, or_false]
    rintro q (rfl | rfl | rfl | rfl) <;> simp_all [sha256Len, ecPublicKeyLen]
  rw [ho, Outcome.sized, Outcome.sizedAt, if_neg (by omega)]
  refine ⟨rfl, rfl, ?_, ?_⟩
  · -- `OP_RETURN` in front
    rw [Bytes.take_write_zero]
    simp [wallyScriptpubkeyGetType, scriptpubkeyIsOpReturn, pegoutImage]
  · -- behind it, the four pushes
    have hne : pushScript genesisBlockhash ≠ [] :=
      List.ne_nil_of_length_pos (one_le_length_pushScript _)
    rw [Bytes.take_write_zero, pegoutImage, List.singleton_append, List.drop_one, List.tail_cons]
    exact scriptsigToWitness_eq_ok_iff.mpr ⟨fun h => hne (List.append_eq_nil.mp h).1,
      isPushes_pushScripts h32⟩

/-- A peg-out script with a one-byte mainchain script and whitelist proof, in 72 bytes. -/
theorem pegout_script_reads_back_sample :
    (List.replicate 32 0 : Bytes).length = sha256Len ∧ ([0x51] : Bytes) ≠ [] ∧
    (List.replicate 33 2 : Bytes).length = ecPublicKeyLen ∧ ([0] : Bytes) ≠ [] ∧
    ([0x51] : Bytes).length < 2 ^ 32 ∧ ([0] : Bytes).length < 2 ^ 32 ∧
    wallyElementsPegoutScriptSize 32 1 33 1 ≤ (List.replicate 72 0 : Bytes).length ∧
    let o := wallyElementsPegoutScriptFromBytes sampleCollab (List.replicate 32 0) [0x51]
      (List.replicate 33 2) [0] 0 (List.replicate 72 0)
    o.ret = .ok ∧ o.written = wallyElementsPegoutScriptSize 32 1 33 1 ∧
      wallyScriptpubkeyGetType (o.mem.take o.written) = (.ok, .opReturn) ∧
      scriptsigToWitness ((o.mem.take o.written).drop 1) =
        .ok [List.replicate 32 0, [0x51], List.replicate 33 2, [0]] :=
  ⟨by decide, by decide, by decide, by decide, by decide, by decide, by decide,
    pegout_script_reads_back sampleCollab (by decide) (by decide) (by decide) (by decide)
      (by decide) (by decide) (by decide)⟩

end WallyScript
