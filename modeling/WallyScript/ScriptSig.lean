import WallyScript.Builders

/-!
# ScriptSig builders

`wally_scriptsig_p2pkh_from_der`, `wally_scriptsig_p2pkh_from_sig` and
`wally_scriptsig_multisig_from_bytes` (lines 572–628 and 727–791 of `script.c`): scriptSigs made
of pushes only, signatures first.

The P2PKH builders do not answer a size: they check the capacity against the two pushes
up front and fail with `WALLY_EINVAL` on a buffer too small (`wallyScriptsigP2pkhFromDer_eq`).
The multisig builder keeps the sizing contract: it turns every signature into its DER form and
sighash byte first, sums the pushes, answers that sum on a short buffer, and otherwise runs its
push loop, whose run lemma `pushAll_write` says that the loop stores the pushes one after another.

* `wallyScriptsigMultisigFromBytes_eq` is the contract: `OP_0`, the signature pushes and the
  script push on a buffer that holds them, the size answer otherwise.
-/

namespace WallyScript

/-! ### P2PKH -/

/-- `DER_AND_HASH_MAX_LEN`: a DER signature and its sighash byte. -/
def derAndHashMaxLen : Nat := ecSignatureDerMaxLen + 1

/-- `wally_scriptsig_p2pkh_from_der`. When the key's push fails, `wally_clear(bytes_out, n)`
zeroes the signature's. -/
def wallyScriptsigP2pkhFromDer (c : Collab) (pubKey sig out : Bytes) : Outcome :=
  let len := out.length
  if !isPkLen pubKey.length ∨ sig = [] ∨ sig.length > derAndHashMaxLen then ⟨.einval, 0, out⟩
  else if len < scriptGetPushSize pubKey.length + scriptGetPushSize sig.length then
    ⟨.einval, 0, out⟩
  else
    let o := wallyScriptPushFromBytes c sig 0 out 0 len
    if o.ret = .ok then
      let n := o.written
      let o' := wallyScriptPushFromBytes c pubKey 0 o.mem n (len - n)
      if o'.ret = .ok then ⟨.ok, o'.written + n, o'.mem⟩
      else ⟨o'.ret, o'.written, o'.mem.write 0 (List.replicate n 0)⟩
    else o

/-- `wally_scriptsig_p2pkh_from_sig`: the DER form of `sig` with the sighash byte behind it. -/
def wallyScriptsigP2pkhFromSig (c : Collab) (pubKey sig : Bytes) (sighash : UInt32)
    (out : Bytes) : Outcome :=
  if sighash &&& 0xffffff00 ≠ 0 then ⟨.einval, 0, out⟩
  else match c.sigToDer sig with
    | none => ⟨.einval, 0, out⟩
    | some der => wallyScriptsigP2pkhFromDer c pubKey (der ++ [UInt8.ofNat sighash.toNat]) out

/-- The image of a P2PKH scriptSig: the push of the signature, then the push of the key. -/
def p2pkhScriptsig (pubKey sig : Bytes) : Bytes := pushScript sig ++ pushScript pubKey

/-- The inputs `wally_scriptsig_p2pkh_from_der` builds from: a 33- or 65-byte key and a
signature of 1 to `DER_AND_HASH_MAX_LEN` bytes. -/
def P2pkhSigInput (pubKey sig : Bytes) : Prop :=
  isPkLen pubKey.length = true ∧ sig ≠ [] ∧ sig.length ≤ derAndHashMaxLen

theorem length_p2pkhScriptsig (pubKey sig : Bytes) :
    (p2pkhScriptsig pubKey sig).length =
      scriptGetPushSize pubKey.length + scriptGetPushSize sig.length := by
  simp [p2pkhScriptsig]; omega

/-- **P2PKH scriptSig.** On an input it builds from, the builder fails with `WALLY_EINVAL` on a
buffer too small for its two pushes, and stores them otherwise. -/
theorem wallyScriptsigP2pkhFromDer_eq {c : Collab} {pubKey sig : Bytes}
    (h : P2pkhSigInput pubKey sig) (out : Bytes) :
    wallyScriptsigP2pkhFromDer c pubKey sig out =
      if out.length < (p2pkhScriptsig pubKey sig).length then ⟨.einval, 0, out⟩
      else ⟨.ok, (p2pkhScriptsig pubKey sig).length, out.write 0 (p2pkhScriptsig pubKey sig)⟩ := by
  obtain ⟨hk, hs, hl⟩ := h
  have hf : scriptFlagsOk 0 0 = true := by decide
  rw [length_p2pkhScriptsig]
  unfold wallyScriptsigP2pkhFromDer
  dsimp only
  rw [if_neg (by simp [hk, hs]; omega)]
  by_cases h1 : out.length < scriptGetPushSize pubKey.length + scriptGetPushSize sig.length
  · rw [if_pos h1, if_pos h1]
  have hsig : (pushScript (pushPayload c sig 0)).length = scriptGetPushSize sig.length :=
    length_pushScript sig
  have hpub : (pushScript (pushPayload c pubKey 0)).length = scriptGetPushSize pubKey.length :=
    length_pushScript pubKey
  have e1 : wallyScriptPushFromBytes c sig 0 (out.write 0 []) (0 + ([] : Bytes).length)
      out.length = ⟨.ok, _, out.write 0 ([] ++ pushScript sig)⟩ :=
    wallyScriptPushFromBytes_after hf (by rw [hsig]; omega) rfl
  simp only [Bytes.write_nil, List.length_nil, Nat.add_zero, List.nil_append] at e1
  rw [if_neg h1, if_neg h1, e1, if_pos rfl]
  dsimp only
  rw [wallyScriptPushFromBytes_after hf (by rw [hpub, hsig]; omega) (by rw [Nat.zero_add]; rfl),
    if_pos rfl, hpub, hsig]
  simp only [p2pkhScriptsig, Nat.add_comm]
  rfl

/-- The P2PKH scriptSig builder fails on every buffer when the input is not one it builds from. -/
theorem wallyScriptsigP2pkhFromDer_einval {c : Collab} {pubKey sig : Bytes}
    (h : ¬P2pkhSigInput pubKey sig) (out : Bytes) :
    wallyScriptsigP2pkhFromDer c pubKey sig out = ⟨.einval, 0, out⟩ := by
  unfold wallyScriptsigP2pkhFromDer
  rw [if_pos]
  simp only [P2pkhSigInput, not_and_or, Bool.not_eq_true] at h
  simp only [Bool.not_eq_true', gt_iff_lt]
  rcases h with h | h | h
  · exact .inl h
  · exact .inr (.inl (by simpa using h))
  · exact .inr (.inr (by omega))

/-! ### Multisig -/

/-- The DER loop of `wally_scriptsig_multisig_from_bytes`: each signature's DER form followed by
its sighash byte, or the first failure, a sighash above `0xff` or a signature that
`wally_ec_sig_to_der` rejects. -/
def multisigDers (c : Collab) : List Bytes → List UInt32 → Except Ret (List Bytes)
  | sig :: sigs, h :: hs =>
    if h &&& ~~~0xff ≠ 0 then .error .einval
    else match c.sigToDer sig with
      | none => .error .einval
      | some der => ((der ++ [UInt8.ofNat h.toNat]) :: ·) <$> multisigDers c sigs hs
  | _, _ => .ok []

/-- The push loop of `wally_scriptsig_multisig_from_bytes` from the cursor `p` with the capacity
`len` left: each item pushed and the cursor and capacity moved past it, up to the first push that
fails. It ends with the last return code, the buffer, the cursor and the capacity. -/
def pushAll (c : Collab) : List Bytes → Bytes → Nat → Nat → Ret × Bytes × Nat × Nat
  | [], mem, p, len => (.ok, mem, p, len)
  | d :: ds, mem, p, len =>
    let o := wallyScriptPushFromBytes c d 0 mem p len
    if o.ret = .ok then pushAll c ds o.mem (p + o.written) (len - o.written) else (o.ret, mem, p, len)

/-- The bytes the pushes of `items` take. -/
def pushesSize (items : List Bytes) : Nat := (items.map fun d => scriptGetPushSize d.length).sum

/-- `wally_scriptsig_multisig_from_bytes`: the DER loop, the size answer for `required`, then
`OP_0`, the push loop and the push of `script`. -/
def wallyScriptsigMultisigFromBytes (c : Collab) (script bytes : Bytes) (sighash : List UInt32)
    (flags : UInt32) (out : Bytes) : Outcome :=
  let nSigs := bytes.length / ecSignatureLen
  if script = [] ∨ bytes = [] ∨ bytes.length % ecSignatureLen ≠ 0 ∨ nSigs < 1 ∨ nSigs > 15 ∨
      sighash.length ≠ nSigs ∨ flags ≠ 0 then ⟨.einval, 0, out⟩
  else match multisigDers c (bytes.chunks ecSignatureLen nSigs) sighash with
    | .error e => ⟨e, 0, out⟩
    | .ok ders =>
      let required := pushesSize ders + (1 + scriptGetPushSize script.length)
      if out.length < required then ⟨.ok, required, out⟩
      else match pushAll c ders (out.write 0 [op0]) 1 (out.length - 1) with
        | (.ok, mem, p, len) =>
          let o := wallyScriptPushFromBytes c script 0 mem p len
          if o.ret ≠ .ok then ⟨o.ret, 0, o.mem⟩
          else if len < o.written then ⟨.error, 0, o.mem⟩
          else ⟨.ok, required, o.mem⟩
        | (ret, mem, _, _) => ⟨ret, 0, mem⟩

/-- The image of a multisig scriptSig: `OP_0`, the pushes of the signatures, the push of the
script. -/
def multisigScriptsig (ders : List Bytes) (script : Bytes) : Bytes :=
  [op0] ++ (ders.map pushScript).flatten ++ pushScript script

@[simp] theorem pushesSize_nil : pushesSize [] = 0 := rfl

@[simp] theorem pushesSize_cons (d : Bytes) (ds : List Bytes) :
    pushesSize (d :: ds) = scriptGetPushSize d.length + pushesSize ds := rfl

theorem length_flatten_pushScript (ds : List Bytes) :
    ((ds.map pushScript).flatten).length = pushesSize ds := by
  induction ds with
  | nil => rfl
  | cons d ds ih => simp [ih]

/-- **The push loop.** With capacity for all its pushes, the loop stores them one after another
behind what is already stored at `p`. -/
theorem pushAll_write {c : Collab} {ds : List Bytes} {mem pre : Bytes} {p len : Nat}
    (hlen : pushesSize ds ≤ len) :
    pushAll c ds (mem.write p pre) (p + pre.length) len =
      (.ok, mem.write p (pre ++ (ds.map pushScript).flatten), p + pre.length + pushesSize ds,
        len - pushesSize ds) := by
  induction ds generalizing pre len with
  | nil => simp [pushAll]
  | cons d ds ih =>
    have hp : pushPayload c d 0 = d := rfl
    have hd := length_pushScript d
    simp only [pushesSize_cons] at hlen
    rw [pushAll, wallyScriptPushFromBytes_after (by decide) (by rw [hp]; omega) rfl, if_pos rfl]
    dsimp only
    rw [hp, Nat.add_assoc, ← List.length_append, ih (by omega)]
    simp only [List.map_cons, List.flatten_cons, List.append_assoc, pushesSize_cons,
      List.length_append, hd, Prod.mk.injEq, true_and]
    constructor <;> omega

/-- The inputs `wally_scriptsig_multisig_from_bytes` checks before its DER loop: a script, 1 to
15 compact signatures and one sighash for each, and no flags. -/
def MultisigSigInput (script bytes : Bytes) (sighash : List UInt32) (flags : UInt32) : Prop :=
  script ≠ [] ∧ bytes.length % ecSignatureLen = 0 ∧ 1 ≤ bytes.length / ecSignatureLen ∧
    bytes.length / ecSignatureLen ≤ 15 ∧ sighash.length = bytes.length / ecSignatureLen ∧ flags = 0

theorem length_multisigScriptsig (ders : List Bytes) (script : Bytes) :
    (multisigScriptsig ders script).length =
      pushesSize ders + (1 + scriptGetPushSize script.length) := by
  simp only [multisigScriptsig, List.length_append, List.length_singleton,
    length_flatten_pushScript, length_pushScript]
  omega

/-- **Multisig scriptSig.** Once its signatures have DER forms, the builder keeps the sizing
contract with `OP_0`, their pushes and the script's push, on every buffer. -/
theorem wallyScriptsigMultisigFromBytes_eq {c : Collab} {script bytes : Bytes}
    {sighash : List UInt32} {flags : UInt32} {ders : List Bytes}
    (h : MultisigSigInput script bytes sighash flags)
    (hd : multisigDers c (bytes.chunks ecSignatureLen (bytes.length / ecSignatureLen)) sighash =
      .ok ders) (out : Bytes) :
    wallyScriptsigMultisigFromBytes c script bytes sighash flags out =
      .sized (multisigScriptsig ders script) out := by
  obtain ⟨hs, hm, h1, h15, hh, rfl⟩ := h
  have hb : bytes ≠ [] := by rintro rfl; simp at h1
  unfold wallyScriptsigMultisigFromBytes
  dsimp only
  rw [if_neg (by simp [hs, hb, hm, hh]; omega), hd]
  dsimp only
  simp only [Outcome.sized, Outcome.sizedAt, length_multisigScriptsig]
  by_cases hl : out.length < pushesSize ders + (1 + scriptGetPushSize script.length)
  · -- the size answer, checked before anything is stored
    rw [if_pos hl, if_pos hl]
  -- `OP_0`, each signature pushed in turn, then the script pushed behind them
  have hp : pushAll c ders (out.write 0 [op0]) 1 (out.length - 1) =
      (.ok, out.write 0 ([op0] ++ (ders.map pushScript).flatten),
        1 + pushesSize ders, out.length - 1 - pushesSize ders) :=
    pushAll_write (by omega)
  have hq : 1 + pushesSize ders = 0 + ([op0] ++ (ders.map pushScript).flatten).length := by
    simp only [List.length_append, List.length_singleton, length_flatten_pushScript]; omega
  rw [if_neg hl, if_neg hl, hp, hq]
  dsimp only
  have hps : pushPayload c script 0 = script := rfl
  rw [wallyScriptPushFromBytes_after (by decide) (by rw [hps, length_pushScript]; omega) rfl]
  simp only [ne_eq, not_true_eq_false, if_false, hps, length_pushScript]
  rw [if_neg (by omega)]
  rfl

/-- The DER loop fails only with `WALLY_EINVAL`. -/
theorem multisigDers_error {c : Collab} {sigs : List Bytes} {hs : List UInt32} {e : Ret}
    (h : multisigDers c sigs hs = .error e) : e = .einval := by
  induction sigs generalizing hs with
  | nil => cases hs <;> cases h
  | cons sig sigs ih =>
    cases hs with
    | nil => cases h
    | cons x hs =>
      simp only [multisigDers] at h
      split_ifs at h
      · cases h; rfl
      · split at h
        · cases h; rfl
        · cases hr : multisigDers c sigs hs with
          | error e' => rw [hr] at h; cases h; exact ih hr
          | ok ds => rw [hr] at h; cases h

/-- The multisig scriptSig builder fails with `WALLY_EINVAL` on every buffer when its input
checks fail or a signature has no DER form. -/
theorem wallyScriptsigMultisigFromBytes_einval {c : Collab} {script bytes : Bytes}
    {sighash : List UInt32} {flags : UInt32}
    (h : ¬MultisigSigInput script bytes sighash flags ∨
      ∃ e, multisigDers c (bytes.chunks ecSignatureLen (bytes.length / ecSignatureLen)) sighash =
        .error e) (out : Bytes) :
    wallyScriptsigMultisigFromBytes c script bytes sighash flags out = ⟨.einval, 0, out⟩ := by
  unfold wallyScriptsigMultisigFromBytes
  dsimp only
  split_ifs with hc
  · rfl
  rcases h with h | ⟨e, he⟩
  · simp only [not_or] at hc
    refine absurd ⟨?_, ?_, ?_, ?_, ?_, ?_⟩ h <;> simp_all
    omega
  · rw [he, multisigDers_error he]

end WallyScript
