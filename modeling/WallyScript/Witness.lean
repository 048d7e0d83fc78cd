import WallyScript.ScriptSig

/-!
# Witness builders

`scriptsig_to_witness`, `wally_witness_p2wpkh_from_der`, `wally_witness_p2wpkh_from_sig` and
`wally_witness_multisig_from_bytes` (lines 1213–1297 and 1366–1405 of `script.c`). Each builds
the scriptSig of the same spend into a scratch buffer and splits it into one stack item per
push; `wally_witness_p2tr_from_sig` (lines 1343–1364) puts a signature of BIP340 length on a
stack of its own. A witness stack is the list of its items; allocation failures are not
modelled.

The split accepts exactly the runs of pushes, headers as `get_push_size` reads them each followed
by the payload it declares, and returns their payloads (`scriptsigToWitness_eq_ok_iff`); it fails
only with `WALLY_EINVAL`. It reads back what the encoder wrote for payloads below `2 ^ 32` bytes
(`witnessItems_pushes`), and not beyond, where the encoder's header truncates
(`scriptsigToWitness_truncated_push`). So the stack is the list of the scriptSig's payloads
whenever the scratch buffer holds the scriptSig:

* `wallyWitnessP2wpkhFromDer_eq`: `[sig, pubKey]` for every input the scriptSig builder takes,
  and `wallyWitnessP2wpkhFromSig_eq` the same with the DER form of a compact signature;
* `wallyWitnessMultisigFromBytes_eq`: the empty item, the signatures and the script, when the
  scratch buffer holds the multisig scriptSig. The buffer is sized by the threshold in the script
  and not by the number of signatures, and `witnessMultisig_undersized` is a call where it does
  not.
-/

namespace WallyScript

/-! ### Splitting a scriptSig -/

/-- The walk of `scriptsig_to_witness` over a push-only script: the payload of each push as one
stack item, or the first failure of the decoder. -/
def witnessItems (bytes : Bytes) : Except Ret (List Bytes) :=
  if bytes = [] then .ok []
  else
    match _hn : getPushSize 64 bytes false, _hk : getPushSize 64 bytes true with
    | .ok pushSize, .ok opcodeSize =>
      ((bytes.drop opcodeSize).take pushSize :: ·) <$>
        witnessItems (bytes.drop (opcodeSize + pushSize))
    | .error e, _ => .error e
    | .ok _, .error e => .error e
termination_by bytes.length
decreasing_by
  have := getPushSize_le_length _hk _hn
  simp only [List.length_drop]
  omega

/-- `scriptsig_to_witness`. -/
def scriptsigToWitness (bytes : Bytes) : Except Ret (List Bytes) :=
  if bytes = [] then .error .einval else witnessItems bytes

/-- One turn of the walk: a push that decodes is taken off the front. -/
theorem witnessItems_of_ok {b : Bytes} {k n : Nat} (hb : b ≠ [])
    (hn : getPushSize 64 b false = .ok n) (hk : getPushSize 64 b true = .ok k) :
    witnessItems b = ((b.drop k).take n :: ·) <$> witnessItems (b.drop (k + n)) := by
  rw [witnessItems, if_neg hb]
  split <;> simp_all

/-- `b` is the pushes of `items` laid end to end: each item behind a header that `get_push_size`
reads as declaring the item's length. -/
inductive IsPushes : Bytes → List Bytes → Prop
  | nil : IsPushes [] []
  | cons {f : PushForm} {d rest : Bytes} {items : List Bytes} :
      f.Declares d.length → IsPushes rest items →
      IsPushes (f.header d.length ++ d ++ rest) (d :: items)

/-- What the walk returns on `b`: the stack of a run of pushes that makes up `b`, or
`WALLY_EINVAL`. -/
def SplitResult (b : Bytes) : Except Ret (List Bytes) → Prop
  | .ok items => IsPushes b items
  | .error e => e = .einval

/-- A push that decodes is a header, its payload and the rest. -/
theorem eq_header_append {b : Bytes} {k n : Nat} (hk : getPushSize 64 b true = .ok k)
    (hn : getPushSize 64 b false = .ok n) :
    ∃ f : PushForm, f.size = k ∧ f.Declares ((b.drop k).take n).length ∧
      b = f.header ((b.drop k).take n).length ++ (b.drop k).take n ++ b.drop (k + n) := by
  have hle := (getPushSize_le_length hk hn).2
  obtain ⟨k', n', hr, -, hk'⟩ := getPushSize_eq_ok.mp hk
  obtain ⟨_, _, hr', -, hn'⟩ := getPushSize_eq_ok.mp hn
  rw [hr] at hr'
  cases hr'
  simp only [if_true, if_false] at hk' hn'
  subst hk' hn'
  obtain ⟨f, hf, hd, hb⟩ := readPushHeader_eq_some.mp hr
  have hlen : ((b.drop k).take n).length = n := by simp; omega
  refine ⟨f, hf, by rw [hlen]; exact hd, ?_⟩
  rw [hlen, List.append_assoc, ← List.drop_drop, List.take_append_drop, ← hf]
  exact hf ▸ hb

/-- **The walk.** On every byte string the walk returns the payloads of the pushes that make it
up, or fails with `WALLY_EINVAL`. -/
theorem witnessItems_spec (b : Bytes) : SplitResult b (witnessItems b) := by
  obtain ⟨n, h⟩ : ∃ n, b.length = n := ⟨_, rfl⟩
  induction n using Nat.strong_induction_on generalizing b with
  | _ n ih =>
    by_cases hb : b = []
    · subst hb; rw [witnessItems, if_pos rfl]; exact .nil
    rw [witnessItems, if_neg hb]
    split
    · rename_i pushSize opcodeSize hn hk
      have hle := getPushSize_le_length hk hn
      have hrest := ih _ (by simp only [List.length_drop]; omega) (b.drop (opcodeSize + pushSize)) rfl
      obtain ⟨f, -, hd, hfb⟩ := eq_header_append hk hn
      cases hw : witnessItems (b.drop (opcodeSize + pushSize)) with
      | error e => rw [hw] at hrest; exact hrest
      | ok items =>
        rw [hw] at hrest
        have := IsPushes.cons hd hrest
        rwa [← hfb] at this
    · exact getPushSize_error ‹_›
    · exact getPushSize_error ‹_›

/-- The walk succeeds on every run of pushes, with their payloads. -/
theorem witnessItems_of_isPushes {b : Bytes} {items : List Bytes} (h : IsPushes b items) :
    witnessItems b = .ok items := by
  induction h with
  | nil => rw [witnessItems, if_pos rfl]
  | @cons f d rest items hd _ ih =>
    have hne : f.header d.length ++ d ++ rest ≠ [] := by
      have := f.size_pos
      intro h
      have := congrArg List.length h
      simp at this; omega
    rw [witnessItems_of_ok hne (getPushSize_header hd rfl rest false)
      (getPushSize_header hd rfl rest true)]
    simp only [Bool.false_eq_true, ite_true, ite_false, List.append_assoc]
    rw [List.drop_left' (PushForm.length_header f _), List.take_left,
      ← List.drop_drop, List.drop_left' (PushForm.length_header f _), List.drop_left, ih]
    rfl

/-- **Splitting a scriptSig.** On every byte string, `scriptsig_to_witness` succeeds with the
stack `items` exactly when the string is not empty and is the pushes of `items` laid end to
end. -/
theorem scriptsigToWitness_eq_ok_iff {b : Bytes} {items : List Bytes} :
    scriptsigToWitness b = .ok items ↔ b ≠ [] ∧ IsPushes b items := by
  unfold scriptsigToWitness
  by_cases hb : b = []
  · simp [hb]
  rw [if_neg hb]
  refine ⟨fun h => ⟨hb, ?_⟩, fun h => witnessItems_of_isPushes h.2⟩
  have := witnessItems_spec b
  rwa [h] at this

/-- `scriptsig_to_witness` fails only with `WALLY_EINVAL`. -/
theorem scriptsigToWitness_error {b : Bytes} {e : Ret} (h : scriptsigToWitness b = .error e) :
    e = .einval := by
  unfold scriptsigToWitness at h
  split at h
  · cases h; rfl
  · have := witnessItems_spec b
    rwa [h] at this

/-- The pushes the encoder stores for payloads below `2 ^ 32` bytes make up a run of pushes. -/
theorem isPushes_pushScripts {items : List Bytes} (h : ∀ q ∈ items, q.length < 2 ^ 32) :
    IsPushes (items.map pushScript).flatten items := by
  induction items with
  | nil => exact .nil
  | cons q qs ih =>
    rw [List.map_cons, List.flatten_cons, pushScript, pushOpcode_eq]
    exact .cons (declares_minimal (h q (List.mem_cons_self _ _)))
      (ih fun x hx => h x (List.mem_cons_of_mem _ hx))

/-- **The split reads back the encoder.** A run of pushes splits into their payloads. -/
theorem witnessItems_pushes {items : List Bytes} (h : ∀ q ∈ items, q.length < 2 ^ 32) :
    witnessItems (items.map pushScript).flatten = .ok items :=
  witnessItems_of_isPushes (isPushes_pushScripts h)

/-- A scriptSig stored at the front of a scratch buffer that holds it splits into its pushes. -/
theorem scriptsigToWitness_write {items : List Bytes} (hne : items ≠ [])
    (h : ∀ q ∈ items, q.length < 2 ^ 32) {buff : Bytes}
    (hfit : ((items.map pushScript).flatten).length ≤ buff.length) :
    scriptsigToWitness ((buff.write 0 (items.map pushScript).flatten).take
      ((items.map pushScript).flatten).length) = .ok items := by
  obtain _ | ⟨q, qs⟩ := items
  · exact absurd rfl hne
  rw [Bytes.take_write_zero, scriptsigToWitness,
    if_neg (by simp [pushScript, pushOpcode]; split_ifs <;> simp), witnessItems_pushes h]

/-- A run of zero bytes is a run of `OP_0`, the empty push. -/
theorem isPushes_zeros (m : Nat) : IsPushes (List.replicate m 0) (List.replicate m []) := by
  induction m with
  | zero => exact .nil
  | succ m ih =>
    rw [List.replicate_succ, List.replicate_succ]
    exact .cons (f := .direct) (d := []) (by decide) ih

/-- From `2 ^ 32` bytes on the encoder's header truncates (`push_length_truncated`), and the split
no longer reads its pushes back: `2 ^ 32` zero bytes, pushed and split again, come back as
`2 ^ 32 + 1` empty items, since the header declares an empty push and each zero byte after it
is `OP_0`. -/
theorem scriptsigToWitness_truncated_push (c : Collab) :
    (wallyScriptPushFromBytes c (List.replicate (2 ^ 32) 0) 0 (List.replicate (2 ^ 32 + 5) 0) 0
        (2 ^ 32 + 5)).ret = .ok ∧
    scriptsigToWitness (wallyScriptPushFromBytes c (List.replicate (2 ^ 32) 0) 0
        (List.replicate (2 ^ 32 + 5) 0) 0 (2 ^ 32 + 5)).mem =
      .ok (List.replicate (2 ^ 32 + 1) []) := by
  have hh : PushForm.pushdata4.header ([] : Bytes).length ++ [] = [opPushdata4, 0, 0, 0, 0] := rfl
  rw [wallyScriptPushFromBytes_zeros]
  refine ⟨rfl, scriptsigToWitness_eq_ok_iff.mpr ⟨List.cons_ne_nil _ _, ?_⟩⟩
  rw [List.replicate_succ, ← hh]
  exact .cons (by decide) (isPushes_zeros _)

/-! ### P2WPKH -/

/-- `wally_witness_p2wpkh_from_der`; `maxLen` is the header's `WALLY_SCRIPTSIG_P2PKH_MAX_LEN`,
the size of its scratch buffer. -/
def wallyWitnessP2wpkhFromDer (c : Collab) (maxLen : Nat) (pubKey sig : Bytes) :
    Except Ret (List Bytes) :=
  let o := wallyScriptsigP2pkhFromDer c pubKey sig (List.replicate maxLen 0)
  if o.ret ≠ .ok then .error o.ret
  else if o.written > maxLen then .error .error
  else scriptsigToWitness (o.mem.take o.written)

/-- `wally_witness_p2wpkh_from_sig`. -/
def wallyWitnessP2wpkhFromSig (c : Collab) (maxLen : Nat) (pubKey sig : Bytes)
    (sighash : UInt32) : Except Ret (List Bytes) :=
  let o := wallyScriptsigP2pkhFromSig c pubKey sig sighash (List.replicate maxLen 0)
  if o.ret ≠ .ok then .error o.ret
  else if o.written > maxLen then .error .error
  else scriptsigToWitness (o.mem.take o.written)

/-- A P2PKH scriptSig takes at most 140 bytes: a 73-byte signature and a 65-byte key, each behind
a one-byte header. -/
theorem length_p2pkhScriptsig_le {pubKey sig : Bytes} (h : P2pkhSigInput pubKey sig) :
    (p2pkhScriptsig pubKey sig).length ≤ 140 := by
  obtain ⟨hk, -, hl⟩ := h
  have : pubKey.length ≤ 65 := by
    simp only [isPkLen, Bool.or_eq_true, decide_eq_true_eq] at hk
    rcases hk with hk | hk <;> rw [hk] <;> decide
  simp only [derAndHashMaxLen, ecSignatureDerMaxLen] at hl
  rw [length_p2pkhScriptsig]
  simp only [scriptGetPushSize, calcPushOpcodeSize]
  split_ifs <;> omega

/-- **P2WPKH from DER.** With the library's 140-byte scratch buffer or a larger one, every input
the P2PKH scriptSig builder takes gives the stack `[sig, pubKey]`. -/
theorem wallyWitnessP2wpkhFromDer_eq {c : Collab} {maxLen : Nat} (hmax : 140 ≤ maxLen)
    {pubKey sig : Bytes} (h : P2pkhSigInput pubKey sig) :
    wallyWitnessP2wpkhFromDer c maxLen pubKey sig = .ok [sig, pubKey] := by
  have hle := length_p2pkhScriptsig_le h
  have hb : (List.replicate maxLen (0 : UInt8)).length = maxLen := List.length_replicate _ _
  have hsig : sig.length < 2 ^ 32 := by
    have := h.2.2; simp only [derAndHashMaxLen, ecSignatureDerMaxLen] at this; omega
  have hpub : pubKey.length < 2 ^ 32 := by
    have := h.1; simp only [isPkLen, Bool.or_eq_true, decide_eq_true_eq] at this
    rcases this with hk | hk <;> rw [hk] <;> decide
  have hs : p2pkhScriptsig pubKey sig = ([sig, pubKey].map pushScript).flatten := by
    simp [p2pkhScriptsig]
  have hfit : ¬(List.replicate maxLen (0 : UInt8)).length < (p2pkhScriptsig pubKey sig).length := by
    omega
  unfold wallyWitnessP2wpkhFromDer
  rw [wallyScriptsigP2pkhFromDer_eq h, if_neg hfit]
  dsimp only
  rw [if_neg (by simp), if_neg (by omega), hs]
  exact scriptsigToWitness_write (by simp) (by simp; omega) (by rw [← hs]; omega)

/-- **P2WPKH from a compact signature.** With the library's 140-byte scratch buffer or a larger
one, a 33- or 65-byte key, a sighash that fits a byte and a signature with a DER form, the stack
is the DER form followed by the sighash byte, then the key. -/
theorem wallyWitnessP2wpkhFromSig_eq {c : Collab} {maxLen : Nat} (hmax : 140 ≤ maxLen)
    {pubKey sig der : Bytes} {sighash : UInt32} (hk : isPkLen pubKey.length = true)
    (hs : sighash &&& 0xffffff00 = 0) (hd : c.sigToDer sig = some der) :
    wallyWitnessP2wpkhFromSig c maxLen pubKey sig sighash =
      .ok [der ++ [UInt8.ofNat sighash.toNat], pubKey] := by
  have hder := (c.sigToDer_length _ _ hd).2
  have hin : P2pkhSigInput pubKey (der ++ [UInt8.ofNat sighash.toNat]) :=
    ⟨hk, by simp, by simp only [List.length_append, List.length_singleton, derAndHashMaxLen]; omega⟩
  have hsig : wallyScriptsigP2pkhFromSig c pubKey sig sighash (List.replicate maxLen 0) =
      wallyScriptsigP2pkhFromDer c pubKey (der ++ [UInt8.ofNat sighash.toNat])
        (List.replicate maxLen 0) := by
    simp only [wallyScriptsigP2pkhFromSig, hs, ne_eq, not_true_eq_false, if_false, hd]
  rw [← wallyWitnessP2wpkhFromDer_eq hmax (c := c) hin]
  simp only [wallyWitnessP2wpkhFromSig, wallyWitnessP2wpkhFromDer, hsig]

/-! ### P2TR -/

/-- `wally_witness_p2tr_from_sig`: a BIP340 signature of 64 bytes, or 65 with its sighash byte,
as the only item of the stack. -/
def wallyWitnessP2trFromSig (sig : Bytes) : Except Ret (List Bytes) :=
  if sig.length ≠ 64 ∧ sig.length ≠ 65 then .error .einval else .ok [sig]

/-! ### Multisig -/

/-- `wally_witness_multisig_from_bytes`: the scratch buffer holds `OP_0`, `m` maximal signature
pushes and the script's push, for the threshold `m` read from the script's first byte. -/
def wallyWitnessMultisigFromBytes (c : Collab) (script bytes : Bytes) (sighash : List UInt32)
    (flags : UInt32) : Except Ret (List Bytes) :=
  if script = [] then .error .einval
  else match scriptIsOpN (script.getD 0 0) false with
    | none => .error .einval
    | some nSigs =>
      if nSigs = 0 ∨ nSigs > 15 then .error .einval
      else
        let buffLen := 1 + (1 + derAndHashMaxLen) * nSigs + scriptGetPushSize script.length
        let o := wallyScriptsigMultisigFromBytes c script bytes sighash flags
          (List.replicate buffLen 0)
        if o.ret ≠ .ok then .error o.ret
        else if o.written > buffLen then .error .error
        else scriptsigToWitness (o.mem.take o.written)

/-- The multisig scriptSig is the run of pushes of the empty item, the signatures and the
script. -/
theorem multisigScriptsig_eq (ders : List Bytes) (script : Bytes) :
    multisigScriptsig ders script = ((([] :: ders) ++ [script]).map pushScript).flatten := by
  simp [multisigScriptsig, pushScript, pushOpcode]; rfl

/-- What the DER loop yields: at most one item per signature, each a DER signature and its
sighash byte. -/
theorem multisigDers_ok {c : Collab} {sigs : List Bytes} {hs : List UInt32} {ders : List Bytes}
    (h : multisigDers c sigs hs = .ok ders) :
    ders.length ≤ sigs.length ∧ ∀ d ∈ ders, d.length ≤ derAndHashMaxLen := by
  induction sigs generalizing hs ders with
  | nil => cases hs <;> cases h <;> simp
  | cons sig sigs ih =>
    cases hs with
    | nil => cases h; simp
    | cons x hs =>
      simp only [multisigDers] at h
      split_ifs at h
      split at h
      · cases h
      · rename_i der hder
        cases hr : multisigDers c sigs hs with
        | error e => rw [hr] at h; cases h
        | ok ds =>
          rw [hr] at h; cases h
          obtain ⟨hl, hd⟩ := ih hr
          have := (c.sigToDer_length _ _ hder).2
          refine ⟨by simp; omega, ?_⟩
          rintro d (_ | ⟨_, hm⟩)
          · simp [derAndHashMaxLen]; omega
          · exact hd d hm

theorem pushesSize_le {ders : List Bytes} (h : ∀ d ∈ ders, d.length ≤ derAndHashMaxLen) :
    pushesSize ders ≤ (1 + derAndHashMaxLen) * ders.length := by
  induction ders with
  | nil => simp
  | cons d ds ih =>
    have hd := h d (List.mem_cons_self _ _)
    have := ih fun x hx => h x (List.mem_cons_of_mem _ hx)
    simp only [pushesSize_cons, List.length_cons, scriptGetPushSize, calcPushOpcodeSize]
    simp only [derAndHashMaxLen, ecSignatureDerMaxLen] at hd this ⊢
    split_ifs <;> omega

/-- **Multisig witness.** With at most as many signatures as the threshold `m` the script starts
with, the scratch buffer holds the scriptSig, and the stack is the empty item, the signatures in
DER form with their sighash bytes, and the script. -/
theorem wallyWitnessMultisigFromBytes_eq {c : Collab} {script bytes : Bytes}
    {sighash : List UInt32} {flags : UInt32} {ders : List Bytes} {m : Nat}
    (hm : scriptIsOpN (script.getD 0 0) false = some m) (hm15 : m ≤ 15)
    (h : MultisigSigInput script bytes sighash flags) (hn : bytes.length / ecSignatureLen ≤ m)
    (hs32 : script.length < 2 ^ 32)
    (hd : multisigDers c (bytes.chunks ecSignatureLen (bytes.length / ecSignatureLen)) sighash =
      .ok ders) :
    wallyWitnessMultisigFromBytes c script bytes sighash flags = .ok (([] :: ders) ++ [script]) := by
  obtain ⟨hm1, -, -⟩ := scriptIsOpN_false hm
  obtain ⟨hl, hder⟩ := multisigDers_ok hd
  rw [Bytes.length_chunks] at hl
  -- with no more signatures than the threshold, the scriptSig fits the scratch buffer
  have hsize := pushesSize_le hder
  have hfit : (multisigScriptsig ders script).length ≤
      (List.replicate (1 + (1 + derAndHashMaxLen) * m + scriptGetPushSize script.length)
        (0 : UInt8)).length := by
    rw [length_multisigScriptsig, List.length_replicate]
    have := Nat.mul_le_mul_left (1 + derAndHashMaxLen) (hl.trans hn)
    omega
  unfold wallyWitnessMultisigFromBytes
  rw [if_neg h.1, hm]
  dsimp only
  rw [if_neg (by omega), wallyScriptsigMultisigFromBytes_eq h hd]
  simp only [Outcome.sized, Outcome.sizedAt, if_neg (not_lt.mpr hfit), ne_eq, not_true_eq_false,
    if_false, gt_iff_lt]
  rw [List.length_replicate] at hfit
  rw [if_neg (by omega), multisigScriptsig_eq]
  -- and it splits back into its pushes: each payload is short enough to decode
  refine scriptsigToWitness_write (by simp) ?_ (by rw [← multisigScriptsig_eq]; simpa using hfit)
  simp only [List.mem_append, List.mem_cons, List.mem_singleton, List.not_mem_nil, or_false]
  rintro q ((rfl | hq) | rfl)
  · simp
  · have := hder q hq; simp only [derAndHashMaxLen, ecSignatureDerMaxLen] at this; omega
  · exact hs32

set_option maxRecDepth 4000 in
/-- Two signatures against a 1-of-1 script, with the DER encoding of libsecp256k1: each signature
of 64 bytes `0x01` has a 70-byte DER form, the scriptSig builder answers 183 bytes, more than the
113-byte scratch buffer sized for one signature, and the witness builder fails with
`WALLY_ERROR`. All-zero signatures, whose DER forms have 8 bytes, need only 59. -/
theorem witnessMultisig_undersized :
    (derCollab.sigToDer (List.replicate 64 1)).map List.length = some 70 ∧
    (wallyScriptsigMultisigFromBytes derCollab (multisigImage 1 [List.replicate 33 2])
        (List.replicate 128 0) [1, 1] 0 (List.replicate 113 0)).written = 59 ∧
    (wallyScriptsigMultisigFromBytes derCollab (multisigImage 1 [List.replicate 33 2])
        (List.replicate 128 1) [1, 1] 0 (List.replicate 113 0)).ret = .ok ∧
    (wallyScriptsigMultisigFromBytes derCollab (multisigImage 1 [List.replicate 33 2])
        (List.replicate 128 1) [1, 1] 0 (List.replicate 113 0)).written = 183 ∧
    wallyWitnessMultisigFromBytes derCollab (multisigImage 1 [List.replicate 33 2])
        (List.replicate 128 1) [1, 1] 0 = .error .error := by
  have hr : (wallyScriptsigMultisigFromBytes derCollab (multisigImage 1 [List.replicate 33 2])
      (List.replicate 128 1) [1, 1] 0 (List.replicate 113 0)).ret = .ok := by decide
  have hw : (wallyScriptsigMultisigFromBytes derCollab (multisigImage 1 [List.replicate 33 2])
      (List.replicate 128 1) [1, 1] 0 (List.replicate 113 0)).written = 183 := by decide
  have hb : 1 + (1 + derAndHashMaxLen) * 1 +
      scriptGetPushSize (multisigImage 1 [List.replicate 33 2]).length = 113 := by decide
  refine ⟨by decide, by decide, hr, hw, ?_⟩
  -- the scratch buffer is sized by the threshold `OP_1`, and the scriptSig does not fit it
  unfold wallyWitnessMultisigFromBytes
  rw [if_neg (by simp [multisigImage]),
    show scriptIsOpN ((multisigImage 1 [List.replicate 33 2]).getD 0 0) false = some 1 by decide]
  dsimp only
  rw [if_neg (by decide), hb, hr, hw]
  rfl

end WallyScript
