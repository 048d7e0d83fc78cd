import WallyScript.ScriptSig

/-!
# The peg-out script

`wally_elements_pegout_script_size` and `wally_elements_pegout_script_from_bytes` (lines
1058–1114 of `script.c`): `OP_RETURN` and four pushes. The builder expands the macro
`pegout_script_push` once per push; each expansion first checks that the previous store fitted,
returning `WALLY_OK` with the total so far when it did not, then moves past it and pushes into
what is left. The expansions are `pegoutScriptPush`, the builder folds it over the four payloads,
and `pegoutReturn` is what the builder returns from the fold.

The sizing probe thus runs once per push, and the builder's answer depends on where the
capacity runs out:

* `pegoutReturn_foldlM_fits`: with room for every push, the expansions store them one after
  another and add up their sizes;
* `pegoutReturn_foldlM_short`: when the push of item `k` is the first that does not fit, the
  expansions have stored the pushes before it; they fail with `WALLY_EINVAL` when no byte was
  left for it, and return `WALLY_OK` with the total up to and including it otherwise.

`wallyElementsPegoutScriptFromBytes_fits` and `wallyElementsPegoutScriptFromBytes_short` are the
same two facts for the builder.
-/

namespace WallyScript

/-- `wally_elements_pegout_script_size`. -/
def wallyElementsPegoutScriptSize (genesisBlockhashLen mainchainScriptLen subPubkeyLen
    whitelistproofLen : Nat) : Nat :=
  1 + scriptGetPushSize genesisBlockhashLen + scriptGetPushSize mainchainScriptLen +
    scriptGetPushSize subPubkeyLen + scriptGetPushSize whitelistproofLen

/-- What `pegout_script_push` reads and moves: the caller's buffer, the cursor `bytes_out` as an
offset into it, the capacity `len` left there, the size `bytes_written` of the last store, and
`*written`. -/
structure PegoutState where
  mem : Bytes
  p : Nat
  len : Nat
  bytesWritten : Nat
  written : Nat

/-- One expansion of `pegout_script_push`: `.error o` where the macro returns with the outcome
`o`, and the state it leaves otherwise. -/
def pegoutScriptPush (c : Collab) (s : PegoutState) (bytes : Bytes) : Except Outcome PegoutState :=
  if s.len < s.bytesWritten then .error ⟨.ok, s.written, s.mem⟩
  else
    let p := s.p + s.bytesWritten
    let len := s.len - s.bytesWritten
    let o := wallyScriptPushFromBytes c bytes 0 s.mem p len
    if o.ret ≠ .ok then .error ⟨o.ret, s.written, o.mem⟩
    else .ok ⟨o.mem, p, len, o.written, s.written + o.written⟩

/-- What the builder returns after its expansions: the outcome an expansion returned with, or
`WALLY_OK` and the total. -/
def pegoutReturn : Except Outcome PegoutState → Outcome
  | .error o => o
  | .ok s => ⟨.ok, s.written, s.mem⟩

/-- `wally_elements_pegout_script_from_bytes`: `OP_RETURN`, then the four expansions of
`pegout_script_push`. -/
def wallyElementsPegoutScriptFromBytes (c : Collab)
    (genesisBlockhash mainchainScript subPubkey whitelistproof : Bytes) (flags : UInt32)
    (out : Bytes) : Outcome :=
  if genesisBlockhash.length ≠ sha256Len ∨ mainchainScript = [] ∨
      subPubkey.length ≠ ecPublicKeyLen ∨ whitelistproof = [] ∨ flags ≠ 0 ∨ out.length = 0 then
    ⟨.einval, 0, out⟩
  else
    pegoutReturn <| [genesisBlockhash, mainchainScript, subPubkey, whitelistproof].foldlM
      (pegoutScriptPush c) ⟨out.write 0 [opReturn], 0, out.length, 1, 1⟩

/-- `OP_RETURN` and the pushes of `items`. -/
def pegoutImage (items : List Bytes) : Bytes := [opReturn] ++ (items.map pushScript).flatten

theorem length_pegoutImage (items : List Bytes) :
    (pegoutImage items).length = 1 + pushesSize items := by
  simp only [pegoutImage, List.length_append, List.length_singleton, length_flatten_pushScript]

theorem length_pegoutImage_four (genesisBlockhash mainchainScript subPubkey whitelistproof : Bytes) :
    (pegoutImage [genesisBlockhash, mainchainScript, subPubkey, whitelistproof]).length =
      wallyElementsPegoutScriptSize genesisBlockhash.length mainchainScript.length
        subPubkey.length whitelistproof.length := by
  simp only [length_pegoutImage, pushesSize_cons, pushesSize_nil, wallyElementsPegoutScriptSize]
  omega

/-! ### One expansion -/

/-- The expansions' invariant: `pre` is stored at the front of `out` and counted in `*written`,
and the cursor stands behind the last store with the capacity that is left. -/
def PegoutState.Stored (s : PegoutState) (out pre : Bytes) : Prop :=
  s.mem = out.write 0 pre ∧ s.p + s.bytesWritten = pre.length ∧ s.len + s.p = out.length ∧
    s.written = pre.length

section Step

variable {c : Collab} {out pre d : Bytes} {s : PegoutState}

/-- A push that fits behind `pre` is stored there. -/
theorem pegoutScriptPush_fits (hs : s.Stored out pre)
    (hfit : pre.length + scriptGetPushSize d.length ≤ out.length) :
    ∃ s', pegoutScriptPush c s d = .ok s' ∧ s'.Stored out (pre ++ pushScript d) := by
  obtain ⟨mem, p, len, bw, w⟩ := s
  obtain ⟨hmem, hp, hlen, hw⟩ := hs
  simp only at hmem hp hlen hw
  subst hmem hw
  have hpp : pushPayload c d 0 = d := rfl
  have hpush : wallyScriptPushFromBytes c d 0 (out.write 0 pre) (p + bw) (len - bw) =
      ⟨.ok, (pushScript (pushPayload c d 0)).length,
        out.write 0 (pre ++ pushScript (pushPayload c d 0))⟩ :=
    wallyScriptPushFromBytes_after (by decide) (by rw [length_pushScript, hpp]; omega) (by omega)
  refine ⟨⟨out.write 0 (pre ++ pushScript d), p + bw, len - bw, (pushScript d).length,
    pre.length + (pushScript d).length⟩, ?_, rfl, ?_, ?_, (List.length_append _ _).symm⟩
  · rw [pegoutScriptPush, if_neg (by simp only; omega)]
    simp only [hpush, hpp, ne_eq, not_true_eq_false, if_false]
  · simp only [List.length_append, length_pushScript]; omega
  · show len - bw + (p + bw) = out.length; omega

/-- With no byte left behind `pre`, the push fails with `WALLY_EINVAL` and the total so far. -/
theorem pegoutScriptPush_full (hs : s.Stored out pre) (hfull : pre.length = out.length) :
    pegoutScriptPush c s d = .error ⟨.einval, pre.length, out.write 0 pre⟩ := by
  obtain ⟨hmem, hp, hlen, hw⟩ := hs
  rw [pegoutScriptPush, if_neg (by omega)]
  simp only [wallyScriptPushFromBytes_einval (Or.inr (show s.len - s.bytesWritten = 0 by omega)),
    hmem, hw, ne_eq, reduceCtorEq, not_false_eq_true, if_true]

/-- A push that does not fit in the bytes left behind `pre` stores nothing, but is counted. -/
theorem pegoutScriptPush_short (hs : s.Stored out pre) (hlo : pre.length < out.length)
    (hhi : out.length < pre.length + scriptGetPushSize d.length) :
    ∃ s', pegoutScriptPush c s d = .ok s' ∧ s'.len < s'.bytesWritten ∧
      s'.written = pre.length + scriptGetPushSize d.length ∧ s'.mem = out.write 0 pre := by
  obtain ⟨hmem, hp, hlen, hw⟩ := hs
  have hpp : pushPayload c d 0 = d := rfl
  have hpush : wallyScriptPushFromBytes c d 0 s.mem (s.p + s.bytesWritten)
      (s.len - s.bytesWritten) = ⟨.ok, (pushScript d).length, s.mem⟩ := by
    rw [wallyScriptPushFromBytes_eq (by decide) (by omega), Outcome.sizedAt, hpp,
      if_pos (by rw [length_pushScript]; omega)]
  refine ⟨⟨s.mem, s.p + s.bytesWritten, s.len - s.bytesWritten, (pushScript d).length,
    s.written + (pushScript d).length⟩, ?_, ?_, ?_, hmem⟩
  · rw [pegoutScriptPush, if_neg (by omega)]
    simp only [hpush, ne_eq, not_true_eq_false, if_false]
  all_goals simp only [length_pushScript]; omega

/-- After a push that did not fit, the next expansion returns `WALLY_OK` with the total so far,
and so does the builder when there is none. -/
theorem pegoutReturn_foldlM_stop (h : s.len < s.bytesWritten) (ds : List Bytes) :
    pegoutReturn (ds.foldlM (pegoutScriptPush c) s) = ⟨.ok, s.written, s.mem⟩ := by
  cases ds with
  | nil => rfl
  | cons d ds => rw [List.foldlM_cons, pegoutScriptPush, if_pos h]; rfl

end Step

/-! ### The expansions, run -/

section Run

variable {c : Collab} {out : Bytes}

/-- **All pushes fit.** From a state that stored `pre`, with room for every push, the expansions
store the pushes behind `pre` and add their sizes to `*written`. -/
theorem pegoutReturn_foldlM_fits {items : List Bytes} {pre : Bytes} {s : PegoutState}
    (hs : s.Stored out pre) (hfit : pre.length + pushesSize items ≤ out.length) :
    pegoutReturn (items.foldlM (pegoutScriptPush c) s) =
      ⟨.ok, pre.length + pushesSize items, out.write 0 (pre ++ (items.map pushScript).flatten)⟩ := by
  induction items generalizing s pre with
  | nil =>
    obtain ⟨hmem, -, -, hw⟩ := hs
    simp only [List.map_nil, List.flatten_nil, List.append_nil, pushesSize_nil, Nat.add_zero, ← hmem,
      ← hw]
    rfl
  | cons d ds ih =>
    simp only [pushesSize_cons] at hfit
    obtain ⟨s', hstep, hs'⟩ := pegoutScriptPush_fits (c := c) (d := d) hs (by omega)
    rw [List.foldlM_cons, hstep]
    refine (ih hs' (by simp only [List.length_append, length_pushScript]; omega)).trans ?_
    simp only [List.length_append, length_pushScript, pushesSize_cons, List.map_cons,
      List.flatten_cons, List.append_assoc, Nat.add_assoc]

/-- **The first push that does not fit.** From a state that stored `pre`, when the push of
`items[k]` is the first that does not fit, the expansions store the pushes before it; they fail
with `WALLY_EINVAL` and the total so far when no byte is left for it, and return `WALLY_OK` with
the total up to and including it otherwise. -/
theorem pegoutReturn_foldlM_short {items : List Bytes} {k : Nat} (hk : k < items.length)
    {pre : Bytes} {s : PegoutState} (hs : s.Stored out pre)
    (hlo : pre.length + pushesSize (items.take k) ≤ out.length)
    (hhi : out.length < pre.length + pushesSize (items.take (k + 1))) :
    pegoutReturn (items.foldlM (pegoutScriptPush c) s) =
      if out.length = pre.length + pushesSize (items.take k) then
        ⟨.einval, out.length, out.write 0 (pre ++ ((items.take k).map pushScript).flatten)⟩
      else ⟨.ok, pre.length + pushesSize (items.take (k + 1)),
        out.write 0 (pre ++ ((items.take k).map pushScript).flatten)⟩ := by
  induction items generalizing s pre k with
  | nil => exact absurd hk (Nat.not_lt_zero _)
  | cons d ds ih =>
    cases k with
    | zero =>
      -- the first push does not fit: it fails on a full buffer and answers its size otherwise
      simp only [List.take_zero, List.take_succ_cons, pushesSize_nil, pushesSize_cons,
        List.map_nil, List.flatten_nil, List.append_nil, Nat.add_zero] at hlo hhi ⊢
      by_cases heq : out.length = pre.length
      · rw [if_pos heq, List.foldlM_cons, pegoutScriptPush_full hs heq.symm, heq]; rfl
      · obtain ⟨s', hstep, hstop, hw, hmem⟩ := pegoutScriptPush_short (c := c) hs (by omega) hhi
        rw [if_neg heq, List.foldlM_cons, hstep]
        exact (pegoutReturn_foldlM_stop hstop ds).trans (by rw [hw, hmem])
    | succ j =>
      -- the first push fits and is stored; the rest runs from behind it
      simp only [List.take_succ_cons, pushesSize_cons, List.map_cons, List.flatten_cons,
        List.length_cons] at hlo hhi hk ⊢
      obtain ⟨s', hstep, hs'⟩ := pegoutScriptPush_fits (c := c) (d := d) hs (by omega)
      rw [List.foldlM_cons, hstep]
      refine (@ih j (by omega) _ _ hs' (by simp only [List.length_append, length_pushScript]; omega)
        (by simp only [List.length_append, length_pushScript]; omega)).trans ?_
      simp only [List.length_append, length_pushScript, List.append_assoc, Nat.add_assoc]

end Run

/-! ### The builder -/

section Builder

variable {c : Collab} {genesisBlockhash mainchainScript subPubkey whitelistproof : Bytes}
  {out : Bytes}

/-- The state the builder starts its expansions from: `OP_RETURN` stored and counted. -/
theorem stored_opReturn : PegoutState.Stored ⟨out.write 0 [opReturn], 0, out.length, 1, 1⟩ out
    [opReturn] :=
  ⟨rfl, rfl, rfl, rfl⟩

theorem wallyElementsPegoutScriptFromBytes_valid (hg : genesisBlockhash.length = sha256Len)
    (hm : mainchainScript ≠ []) (hs : subPubkey.length = ecPublicKeyLen) (hw : whitelistproof ≠ [])
    (hout : out ≠ []) :
    wallyElementsPegoutScriptFromBytes c genesisBlockhash mainchainScript subPubkey whitelistproof
        0 out =
      pegoutReturn ([genesisBlockhash, mainchainScript, subPubkey, whitelistproof].foldlM
        (pegoutScriptPush c) ⟨out.write 0 [opReturn], 0, out.length, 1, 1⟩) := by
  rw [wallyElementsPegoutScriptFromBytes, if_neg (by simp [hg, hm, hs, hw, hout])]

/-- **Peg-out script.** On valid payloads and a buffer of at least
`wally_elements_pegout_script_size` bytes, the builder stores `OP_RETURN` and the four pushes and
reports their total. -/
theorem wallyElementsPegoutScriptFromBytes_fits (hg : genesisBlockhash.length = sha256Len)
    (hm : mainchainScript ≠ []) (hs : subPubkey.length = ecPublicKeyLen) (hw : whitelistproof ≠ [])
    (hfit : (pegoutImage [genesisBlockhash, mainchainScript, subPubkey, whitelistproof]).length ≤
      out.length) :
    wallyElementsPegoutScriptFromBytes c genesisBlockhash mainchainScript subPubkey whitelistproof
        0 out =
      .sized (pegoutImage [genesisBlockhash, mainchainScript, subPubkey, whitelistproof]) out := by
  rw [length_pegoutImage] at hfit
  have hout : out ≠ [] := List.ne_nil_of_length_pos (by omega)
  rw [wallyElementsPegoutScriptFromBytes_valid hg hm hs hw hout,
    pegoutReturn_foldlM_fits stored_opReturn hfit, Outcome.sized, Outcome.sizedAt,
    length_pegoutImage, if_neg (by omega)]
  rfl

/-- **Peg-out script, stepwise.** On valid payloads, when the push of item `k` is the first that
does not fit, the builder has stored `OP_RETURN` and the pushes before it; it fails with
`WALLY_EINVAL` and their total when no byte was left for it, and returns `WALLY_OK` with the total
up to and including it otherwise. -/
theorem wallyElementsPegoutScriptFromBytes_short (hg : genesisBlockhash.length = sha256Len)
    (hm : mainchainScript ≠ []) (hs : subPubkey.length = ecPublicKeyLen) (hw : whitelistproof ≠ [])
    {k : Nat} (hk : k < 4)
    (hlo : (pegoutImage ([genesisBlockhash, mainchainScript, subPubkey, whitelistproof].take k)).length
      ≤ out.length)
    (hhi : out.length < (pegoutImage
      ([genesisBlockhash, mainchainScript, subPubkey, whitelistproof].take (k + 1))).length) :
    wallyElementsPegoutScriptFromBytes c genesisBlockhash mainchainScript subPubkey whitelistproof
        0 out =
      if out.length =
          (pegoutImage ([genesisBlockhash, mainchainScript, subPubkey, whitelistproof].take k)).length
      then ⟨.einval, out.length, out.write 0
        (pegoutImage ([genesisBlockhash, mainchainScript, subPubkey, whitelistproof].take k))⟩
      else ⟨.ok, (pegoutImage
          ([genesisBlockhash, mainchainScript, subPubkey, whitelistproof].take (k + 1))).length,
        out.write 0
          (pegoutImage ([genesisBlockhash, mainchainScript, subPubkey, whitelistproof].take k))⟩ := by
  rw [length_pegoutImage] at hlo hhi
  have hout : out ≠ [] := List.ne_nil_of_length_pos (by omega)
  rw [wallyElementsPegoutScriptFromBytes_valid hg hm hs hw hout,
    pegoutReturn_foldlM_short (by simpa using hk) stored_opReturn hlo hhi, length_pegoutImage, length_pegoutImage]
  rfl

end Builder

end WallyScript
