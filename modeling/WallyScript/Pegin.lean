import WallyScript.Push

/-!
# The peg-in contract script

`wally_elements_pegin_contract_script_from_bytes` (lines 1116–1211 of `script.c`) copies a
redeem script into a buffer of the same length, token by token: a push as `get_push_size` decodes
it, or a single byte where it decodes none. A direct 33-byte push met before the first `OP_ELSE`
outside push data is a key; the loop replaces it by the push of the key tweaked with
`HMAC-SHA256(key, script)`, and then runs the sanity checks of elementsd on the tweak. The cursors
`p` and `q` move together, so the loop is `peginLoop` over the bytes still to read, with their
offset `p`, and it returns the buffer, or the return code and the buffer as the loop leaves it:
there is no rollback, and `*written` is set only at the end.

* `peginTweakKey_ok`: a key the tweak branch accepts is stored as the push of a 33-byte key,
  over the 34 bytes of the original push;
* `peginLoop_result`: the loop fails only with a return code other than `WALLY_OK`, and stores
  within the buffer, so a run that reaches the end leaves a buffer of the redeem script's length;
* `wallyElementsPeginContractScriptFromBytes_ok`: a call that succeeds reports the redeem
  script's length and returns a buffer of that length.

What the loop computes, token by token, is the subject of `PeginRewrite.lean`.
-/

namespace WallyScript

/-- The tweak branch of the loop on the key `key`, storing at offset `q` with `len` bytes left:
the buffer with the push of the tweaked key, or the return code and the buffer at the return. The
push is stored before `pubkey_create`, `pubkey_negate`, `pubkey_combine` and the `memcmp` run. -/
def peginTweakKey (c : Collab) (key script mem : Bytes) (q len : Nat) : Except (Ret × Bytes) Bytes :=
  match c.pubkeyParse key with
  | none => .error (.error, mem)
  | some pubKey =>
    let tweak := c.hmacSha256 key script
    match c.pubkeyTweakAdd pubKey tweak with
    | none => .error (.error, mem)
    | some pubKeyTweaked =>
      match c.pubkeySerialize pubKeyTweaked with
      | none => .error (.error, mem)
      | some serPubKey =>
        let o := wallyScriptPushFromBytes c serPubKey 0 mem q len
        if o.ret ≠ .ok then .error (o.ret, o.mem)
        else
          match c.pubkeyCreate tweak with
          | none => .error (.error, o.mem)
          | some pubKeyFromTweak =>
            match c.pubkeyNegate pubKey with
            | none => .error (.error, o.mem)
            | some negated =>
              match c.pubkeyCombine negated pubKeyTweaked with
              | none => .error (.error, o.mem)
              | some combined =>
                if combined ≠ pubKeyFromTweak then .error (.error, o.mem) else .ok o.mem

/-- The loop of `wally_elements_pegin_contract_script_from_bytes` over the bytes `rest` still to
read, `p` bytes into the redeem script and the buffer `mem`. -/
def peginLoop (c : Collab) (script : Bytes) (flags : UInt32) (rest mem : Bytes) (p : Nat)
    (opElseFound : Bool) : Except (Ret × Bytes) Bytes :=
  match _hn : scriptGetPushSizeFromBytes 64 rest with
  | .ok sizeOut =>
    match _hk : scriptGetPushOpcodeSizeFromBytes 64 rest with
    | .error e => .error (e, mem)
    | .ok opcodeSize =>
      let offsetSiz := sizeOut + opcodeSize
      if rest.length < offsetSiz then .error (.einval, mem)
      else
        let stored :=
          if opcodeSize = 1 ∧ sizeOut = ecPublicKeyLen ∧ opElseFound = false then
            peginTweakKey c ((rest.drop 1).take ecPublicKeyLen) script mem p rest.length
          else .ok (mem.write p (rest.take offsetSiz))
        match stored with
        | .error e => .error e
        | .ok mem' =>
          if rest.length - offsetSiz = 0 then .ok mem'
          else peginLoop c script flags (rest.drop offsetSiz) mem' (p + offsetSiz) opElseFound
  | .error _ =>
    let opElseFound' := if rest.getD 0 0 = opElse ∧ flags = 0 then true else opElseFound
    let mem' := mem.write p [rest.getD 0 0]
    if rest.length - 1 = 0 then .ok mem'
    else peginLoop c script flags (rest.drop 1) mem' (p + 1) opElseFound'
termination_by rest.length
decreasing_by
  all_goals simp only [List.length_drop]
  · have := getPushSize_le_length _hk _hn
    omega
  · omega

/-- `wally_elements_pegin_contract_script_from_bytes`. -/
def wallyElementsPeginContractScriptFromBytes (c : Collab) (redeemScript script : Bytes)
    (flags : UInt32) (out : Bytes) : Outcome :=
  if redeemScript = [] ∨ script = [] ∨ flags ≠ 0 ∨ out.length ≠ redeemScript.length then
    ⟨.einval, 0, out⟩
  else
    match peginLoop c script flags redeemScript out 0 false with
    | .error (e, mem) => ⟨e, 0, mem⟩
    | .ok mem => ⟨.ok, redeemScript.length, mem⟩

/-! ### The tweak branch -/

section Tweak

variable {c : Collab} {key script mem : Bytes} {q len : Nat}

/-- **The tweak branch.** When it succeeds with room for a 34-byte push, the tweak branch has
stored the push of a 33-byte key at `q`. -/
theorem peginTweakKey_ok {mem' : Bytes} (hlen : 34 ≤ len)
    (h : peginTweakKey c key script mem q len = .ok mem') :
    ∃ serPubKey : Bytes, serPubKey.length = ecPublicKeyLen ∧
      mem' = mem.write q (pushScript serPubKey) := by
  unfold peginTweakKey at h
  dsimp only at h
  cases hparse : c.pubkeyParse key <;> simp only [hparse, reduceCtorEq] at h
  rename_i pubKey
  cases htw : c.pubkeyTweakAdd pubKey (c.hmacSha256 key script) <;>
    simp only [htw, reduceCtorEq] at h
  rename_i pubKeyTweaked
  cases hser : c.pubkeySerialize pubKeyTweaked <;> simp only [hser, reduceCtorEq] at h
  rename_i serPubKey
  have hs := c.pubkeySerialize_length _ _ hser
  have hps : (pushScript serPubKey).length = 34 := by
    simp [hs, scriptGetPushSize, calcPushOpcodeSize, ecPublicKeyLen]
  have hpush : wallyScriptPushFromBytes c serPubKey 0 mem q len =
      .sizedAt (pushScript serPubKey) mem q len := wallyScriptPushFromBytes_eq (by decide) (by omega)
  simp only [hpush, Outcome.sizedAt, if_neg (show ¬len < (pushScript serPubKey).length by omega),
    ne_eq, not_true_eq_false, if_false] at h
  refine ⟨serPubKey, hs, ?_⟩
  repeat' split at h
  all_goals (cases h; try rfl)

/-- The tweak branch fails only with a return code other than `WALLY_OK`. -/
theorem peginTweakKey_error {r : Ret} {m : Bytes}
    (h : peginTweakKey c key script mem q len = .error (r, m)) : r ≠ .ok := by
  unfold peginTweakKey at h
  dsimp only at h
  repeat' split at h
  all_goals first | (cases h; decide) | (cases h; assumption) | cases h

end Tweak

/-! ### The loop -/

/-- What a run of the loop on a buffer of `len` bytes returns: a return code other than
`WALLY_OK`, with the buffer as the loop left it, or a buffer of `len` bytes. -/
def PeginResult (len : Nat) : Except (Ret × Bytes) Bytes → Prop
  | .error (r, _) => r ≠ .ok
  | .ok mem => mem.length = len

/-- **The loop.** From an offset `p` with the rest of the redeem script, not empty, filling the
buffer, the loop fails only with a return code other than `WALLY_OK`, and a run that reaches the
end leaves a buffer of the same length: every store lands inside the buffer. -/
theorem peginLoop_result {c : Collab} {script : Bytes} {flags : UInt32} :
    ∀ (n : Nat) (rest mem : Bytes) (p : Nat) (opElseFound : Bool),
      rest.length ≤ n → 0 < rest.length → p + rest.length = mem.length →
      PeginResult mem.length (peginLoop c script flags rest mem p opElseFound) := by
  intro n
  induction n using Nat.strong_induction_on with
  | _ n ih =>
    intro rest mem p found hn hpos hp
    -- after a store that keeps the buffer's length, the loop ends or runs on the rest
    have hnext : ∀ (k : Nat) (mem' : Bytes) (found' : Bool), 1 ≤ k → k ≤ rest.length →
        mem'.length = mem.length →
        PeginResult mem.length (if rest.length - k = 0 then .ok mem'
          else peginLoop c script flags (rest.drop k) mem' (p + k) found') := by
      intro k mem' found' hk hkr hl
      split
      · exact hl
      · rw [← hl]
        exact ih _ (by simp only [List.length_drop]; omega) _ _ _ _ (le_refl _)
          (by simp only [List.length_drop]; omega) (by simp only [List.length_drop]; omega)
    rw [peginLoop]
    split
    · -- a push that decodes: an overrun fails, a fitting one is tweaked or copied
      rename_i sizeOut hsize
      split
      · exact (getPushSize_error ‹_›).symm ▸ (by decide : Ret.einval ≠ .ok)
      rename_i opcodeSize hop
      have hop1 := (getPushSize_le_length hop hsize).1
      dsimp only
      split
      · exact (by decide : Ret.einval ≠ .ok)
      rename_i hfit
      split
      · -- the store failed: only the tweak branch fails
        rename_i e hst
        split at hst
        · exact peginTweakKey_error (r := e.1) (m := e.2) hst
        · cases hst
      · -- the store keeps the buffer's length: 34 bytes over a key push, a copy otherwise
        rename_i mem' hst
        refine hnext _ _ _ (by omega) (by omega) ?_
        split at hst
        · rename_i hkey
          obtain ⟨h1, h33, -⟩ := hkey
          simp only [ecPublicKeyLen] at h33
          obtain ⟨ser, hser, rfl⟩ := peginTweakKey_ok (by omega) hst
          refine Bytes.length_write ?_
          rw [length_pushScript, hser]
          simp [scriptGetPushSize, calcPushOpcodeSize, ecPublicKeyLen]; omega
        · cases hst
          exact Bytes.length_write (by simp only [List.length_take]; omega)
    · -- no push decodes: one byte is copied
      exact hnext 1 _ _ le_rfl (by omega)
        (Bytes.length_write (by simp only [List.length_singleton]; omega))

/-- **Peg-in contract script.** A call that succeeds reports the redeem script's length and
returns a buffer of that length. -/
theorem wallyElementsPeginContractScriptFromBytes_ok {c : Collab} {redeemScript script : Bytes}
    {flags : UInt32} {out : Bytes}
    (h : (wallyElementsPeginContractScriptFromBytes c redeemScript script flags out).ret = .ok) :
    (wallyElementsPeginContractScriptFromBytes c redeemScript script flags out).written =
        redeemScript.length ∧
      (wallyElementsPeginContractScriptFromBytes c redeemScript script flags out).mem.length =
        redeemScript.length := by
  unfold wallyElementsPeginContractScriptFromBytes at h ⊢
  split_ifs at h ⊢ with hc
  simp only [not_or, ne_eq, not_not] at hc
  have hrun := @peginLoop_result c script flags _ redeemScript out 0 false (le_refl _)
    (List.length_pos.mpr hc.1) (by rw [hc.2.2.2, Nat.zero_add])
  cases hloop : peginLoop c script flags redeemScript out 0 false with
  | error e =>
    obtain ⟨r, mem⟩ := e
    rw [hloop] at h hrun
    exact absurd h hrun
  | ok mem =>
    rw [hloop] at hrun
    exact ⟨rfl, hrun.trans hc.2.2.2⟩

end WallyScript
