import WallyScript.ScriptInt
import WallyScript.Push

/-!
# The scriptPubkey classifier

`wally_scriptpubkey_get_type` (`script.c`, lines 328–534) and the matchers it runs in its fixed
order: OP_RETURN, bare multisig, the two CSV-recovery templates, then the fixed-length templates
picked by the buffer's length. `wally_scriptpubkey_csv_blocks_from_csv_2of2_then_1` reruns the
two CSV matchers for the delay they decode.

The multisig matcher is a loop over `n_pushes` key pushes, `multisigLoop`, by recursion on the
pushes still to read. Its grammar is `KeyPushes`: a key push is any header `get_push_size`
decodes, declaring 33 or 65 bytes, followed by them.

* `multisigLoop_iff` is the loop invariant, one push per step, in both directions.
* `getType_eq_multisig_iff` is the whole matcher: `get_type` answers MULTISIG exactly on
  `[OP_m] ++ keys ++ [OP_n, OP_CHECKMULTISIG]` with `n` key pushes.
* `csvA_sound` and `csvOpt_sound` say what the two CSV matchers accept: the template's skeleton
  around some script-int encoding of a delay in `[17, 65535]`, followed for template A by at
  most two more bytes.
-/

namespace WallyScript

/-! ### Small integers -/

/-- `script_is_op_n`: the number `OP_0` (when allowed) or `OP_1`..`OP_16` pushes. -/
def scriptIsOpN (op : UInt8) (allowZero : Bool) : Option Nat :=
  if allowZero ∧ op = op0 then some 0
  else if op1.toNat ≤ op.toNat ∧ op.toNat ≤ op16.toNat then some (op.toNat - op1.toNat + 1)
  else none

/-- `value_to_op_n`, for `v ≤ 16`. -/
def valueToOpN (v : Nat) : UInt8 :=
  if v = 0 then op0 else UInt8.ofNat (op1.toNat + v - 1)

@[simp] theorem op1_toNat : op1.toNat = 81 := rfl

@[simp] theorem op16_toNat : op16.toNat = 96 := rfl

theorem valueToOpN_toNat {v : Nat} (h1 : 1 ≤ v) (h16 : v ≤ 16) : (valueToOpN v).toNat = 80 + v := by
  simp [valueToOpN, Nat.pos_iff_ne_zero.mp h1]; omega

theorem scriptIsOpN_valueToOpN {v : Nat} (h1 : 1 ≤ v) (h16 : v ≤ 16) :
    scriptIsOpN (valueToOpN v) false = some v := by
  simp [scriptIsOpN, valueToOpN_toNat h1 h16]; omega

theorem scriptIsOpN_false {op : UInt8} {v : Nat} (h : scriptIsOpN op false = some v) :
    1 ≤ v ∧ v ≤ 16 ∧ op = valueToOpN v := by
  simp only [scriptIsOpN, Bool.false_eq_true, false_and, if_false] at h
  split_ifs at h with hr
  cases h
  simp only [op1_toNat, op16_toNat] at hr ⊢
  refine ⟨by omega, by omega, ?_⟩
  rw [byte_eq_iff, valueToOpN_toNat (by omega) (by omega)]; omega

/-! ### Script types and fixed templates -/

/-- The `WALLY_SCRIPT_TYPE_*` answers of `wally_scriptpubkey_get_type`. -/
inductive ScriptType
  | unknown
  | opReturn
  | p2pkh
  | p2sh
  | p2wpkh
  | p2wsh
  | multisig
  | p2tr
  | csv2of21
  | csv2of21Opt
  deriving DecidableEq, Repr

/-- `WALLY_SCRIPTPUBKEY_P2PKH_LEN`. -/
def scriptpubkeyP2pkhLen : Nat := 25

/-- `WALLY_SCRIPTPUBKEY_P2SH_LEN`. -/
def scriptpubkeyP2shLen : Nat := 23

/-- `WALLY_SCRIPTPUBKEY_P2WPKH_LEN`. -/
def scriptpubkeyP2wpkhLen : Nat := 22

/-- `WALLY_SCRIPTPUBKEY_P2WSH_LEN`, also `WALLY_SCRIPTPUBKEY_P2TR_LEN`. -/
def scriptpubkeyP2wshLen : Nat := 34

/-- `scriptpubkey_is_op_return`. -/
def scriptpubkeyIsOpReturn (bytes : Bytes) : Bool :=
  bytes ≠ [] ∧ bytes.getD 0 0 = opReturn

/-- `scriptpubkey_is_p2pkh`. -/
def scriptpubkeyIsP2pkh (bytes : Bytes) : Bool :=
  bytes.length = scriptpubkeyP2pkhLen ∧ bytes.getD 0 0 = opDup ∧ bytes.getD 1 0 = opHash160 ∧
    bytes.getD 2 0 = 20 ∧ bytes.getD 23 0 = opEqualverify ∧ bytes.getD 24 0 = opChecksig

/-- `scriptpubkey_is_p2sh`. -/
def scriptpubkeyIsP2sh (bytes : Bytes) : Bool :=
  bytes.length = scriptpubkeyP2shLen ∧ bytes.getD 0 0 = opHash160 ∧ bytes.getD 1 0 = 20 ∧
    bytes.getD 22 0 = opEqual

/-- `scriptpubkey_is_p2wpkh`. -/
def scriptpubkeyIsP2wpkh (bytes : Bytes) : Bool :=
  bytes.length = scriptpubkeyP2wpkhLen ∧ bytes.getD 0 0 = op0 ∧ bytes.getD 1 0 = 20

/-- `scriptpubkey_is_p2wsh`. -/
def scriptpubkeyIsP2wsh (bytes : Bytes) : Bool :=
  bytes.length = scriptpubkeyP2wshLen ∧ bytes.getD 0 0 = op0 ∧ bytes.getD 1 0 = 32

/-- `scriptpubkey_is_p2tr`. -/
def scriptpubkeyIsP2tr (bytes : Bytes) : Bool :=
  bytes.length = scriptpubkeyP2wshLen ∧ bytes.getD 0 0 = op1 ∧ bytes.getD 1 0 = 32

/-! ### Bare multisig -/

/-- The loop of `scriptpubkey_is_multisig` with `i` key pushes still to read at the front of
`bytes`, then its final check `bytes_len == 2`. -/
def multisigLoop : Nat → Bytes → Bool
  | 0, bytes => bytes.length = 2
  | i + 1, bytes =>
    match getPushSize 64 bytes true, getPushSize 64 bytes false with
    | .ok nOp, .ok nPush =>
      isPkLen nPush && !(bytes.length < nOp + nPush + 2) && multisigLoop i (bytes.drop (nOp + nPush))
    | _, _ => false

/-- `scriptpubkey_is_multisig`: `OP_m`, `OP_CHECKMULTISIG` last, `OP_n` before it, and the loop
over `n` pushes from the second byte. -/
def scriptpubkeyIsMultisig (bytes : Bytes) : Bool :=
  if bytes.length < 1 + 1 + 33 + 1 + 1 then false
  else
    match scriptIsOpN (bytes.getD 0 0) false, scriptIsOpN (bytes.getD (bytes.length - 2) 0) false with
    | some _, some nPushes =>
      bytes.getD (bytes.length - 1) 0 = opCheckmultisig && multisigLoop nPushes (bytes.drop 1)
    | _, _ => false

/-- A key push: a header `get_push_size` decodes, declaring 33 or 65 bytes, then those bytes. -/
def IsKeyPush (e : Bytes) : Prop :=
  ∃ (f : PushForm) (payload : Bytes), f.Declares payload.length ∧ isPkLen payload.length ∧
    e = f.header payload.length ++ payload

/-- One successful decode splits the buffer into a push and what follows it. -/
theorem getPushSize_split {b : Bytes} {k n : Nat} (hk : getPushSize 64 b true = .ok k)
    (hn : getPushSize 64 b false = .ok n) :
    ∃ f : PushForm, f.size = k ∧ f.Declares n ∧ ((b.drop k).take n).length = n ∧
      b = f.header n ++ (b.drop k).take n ++ b.drop (k + n) := by
  have hle := (getPushSize_le_length hk hn).2
  obtain ⟨k', n', hr, -, hv⟩ := getPushSize_eq_ok.mp hk
  obtain ⟨k'', n'', hr', -, hv'⟩ := getPushSize_eq_ok.mp hn
  rw [hr] at hr'; cases hr'
  simp only [if_true, if_false] at hv hv'
  subst hv hv'
  obtain ⟨f, rfl, hd, hb⟩ := readPushHeader_eq_some.mp hr
  refine ⟨f, rfl, hd, by simp; omega, ?_⟩
  conv_lhs => rw [hb, ← List.take_append_drop n (b.drop f.size)]
  rw [List.drop_drop, Nat.add_comm, List.append_assoc]

/-- A key push takes at least 34 bytes. -/
theorem length_keyPush {e : Bytes} (h : IsKeyPush e) : 34 ≤ e.length := by
  obtain ⟨f, payload, -, hpk, rfl⟩ := h
  have := f.size_pos
  simp only [isPkLen, ecPublicKeyLen, ecPublicKeyUncompressedLen, Bool.or_eq_true,
    decide_eq_true_eq] at hpk
  simp; omega

/-- **The multisig loop.** `i` more rounds of the loop succeed exactly on `i` key pushes followed
by two bytes. -/
theorem multisigLoop_iff {i : Nat} {b : Bytes} :
    multisigLoop i b = true ↔ ∃ es : List Bytes, es.length = i ∧ (∀ e ∈ es, IsKeyPush e) ∧
      ∃ t : Bytes, t.length = 2 ∧ b = es.flatten ++ t := by
  induction i generalizing b with
  | zero => simp [multisigLoop, eq_comm]
  | succ i ih =>
    constructor
    · -- one turn takes a key push off the front
      intro h
      simp only [multisigLoop] at h
      split at h
      · rename_i k n hk hn
        simp only [Bool.and_eq_true, Bool.not_eq_true', decide_eq_false_iff_not, Nat.not_lt] at h
        obtain ⟨⟨hpk, hlen⟩, hloop⟩ := h
        obtain ⟨es, hes, hkeys, t, ht, hb⟩ := ih.mp hloop
        obtain ⟨f, rfl, hd, hl, hsplit⟩ := getPushSize_split hk hn
        refine ⟨(f.header n ++ (b.drop f.size).take n) :: es, by simp [hes], ?_, t, ht, ?_⟩
        · intro e he
          rcases List.mem_cons.mp he with rfl | he
          · exact ⟨f, _, by rw [hl]; exact hd, by rw [hl]; exact hpk, by rw [hl]⟩
          · exact hkeys e he
        · rw [List.flatten_cons, List.append_assoc, ← hb]; exact hsplit
      · cases h
    · -- a key push in front decodes as one, and the loop runs on behind it
      rintro ⟨_ | ⟨e, es⟩, hes, hkeys, t, ht, rfl⟩
      · cases hes
      obtain ⟨f, payload, hd, hpk, rfl⟩ := hkeys e (List.mem_cons_self _ _)
      have hrest : ∀ g, getPushSize 64 (((f.header payload.length ++ payload) :: es).flatten ++ t) g =
          .ok (if g then f.size else payload.length) := fun g => by
        rw [List.flatten_cons, List.append_assoc, List.append_assoc, ← List.append_assoc]
        exact getPushSize_header hd rfl _ g
      simp only [multisigLoop, hrest, if_true, if_false, hpk, Bool.true_and, Bool.and_eq_true,
        Bool.not_eq_true', decide_eq_false_iff_not, Nat.not_lt]
      refine ⟨⟨hpk, by simp; omega⟩, ih.mpr ⟨es, by simpa using hes, fun e he => hkeys e (.tail _ he), t, ht, ?_⟩⟩
      rw [if_neg Bool.false_ne_true, List.flatten_cons, List.append_assoc]
      exact List.drop_left' (by simp)

theorem getD_length_sub_two (a u v : UInt8) (X : Bytes) :
    (a :: (X ++ [u, v])).getD ((a :: (X ++ [u, v])).length - 2) 0 = u := by
  rw [← List.cons_append, List.getD_append_right _ _ _ _ (by simp)]; simp

theorem getD_length_sub_one (a u v : UInt8) (X : Bytes) :
    (a :: (X ++ [u, v])).getD ((a :: (X ++ [u, v])).length - 1) 0 = v := by
  rw [← List.cons_append, List.getD_append_right _ _ _ _ (by simp)]; simp

theorem length_flatten_keyPushes {es : List Bytes} (h : ∀ e ∈ es, IsKeyPush e) (hne : es ≠ []) :
    34 ≤ es.flatten.length := by
  obtain _ | ⟨e, es⟩ := es
  · exact absurd rfl hne
  have := length_keyPush (h e (List.mem_cons_self _ _))
  simp; omega

/-- **The multisig matcher.** `scriptpubkey_is_multisig` holds exactly on `OP_m`, then `n` key
pushes, then `OP_n` and `OP_CHECKMULTISIG`, for `m` and `n` in `[1, 16]`. -/
theorem scriptpubkeyIsMultisig_iff {s : Bytes} :
    scriptpubkeyIsMultisig s = true ↔
      ∃ (m : Nat) (es : List Bytes), 1 ≤ m ∧ m ≤ 16 ∧ 1 ≤ es.length ∧ es.length ≤ 16 ∧
        (∀ e ∈ es, IsKeyPush e) ∧
        s = [valueToOpN m] ++ es.flatten ++ [valueToOpN es.length, opCheckmultisig] := by
  constructor
  · -- the matcher's `OP_m`, its loop over the keys, and `OP_n OP_CHECKMULTISIG` at the end
    intro h
    unfold scriptpubkeyIsMultisig at h
    split_ifs at h with hlen
    split at h
    · rename_i m n hm hn
      simp only [Bool.and_eq_true, decide_eq_true_eq] at h
      obtain ⟨hlast, hloop⟩ := h
      obtain ⟨es, rfl, hkeys, t, ht, hdrop⟩ := multisigLoop_iff.mp hloop
      obtain ⟨hm1, hm16, hm0⟩ := scriptIsOpN_false hm
      obtain ⟨hn1, hn16, hn0⟩ := scriptIsOpN_false hn
      obtain _ | ⟨a, r⟩ := s
      · simp at hlen
      obtain _ | ⟨u, _ | ⟨v, _ | ⟨w, t⟩⟩⟩ := t <;> simp at ht
      simp only [List.drop_one, List.tail_cons] at hdrop
      subst hdrop
      rw [getD_length_sub_two] at hn0
      rw [getD_length_sub_one] at hlast
      refine ⟨m, es, hm1, hm16, hn1, hn16, hkeys, ?_⟩
      rw [← hm0, ← hn0, ← hlast]; rfl
    · cases h
  · -- the grammar's script passes each check
    rintro ⟨m, es, hm1, hm16, hn1, hn16, hkeys, rfl⟩
    have h34 := length_flatten_keyPushes hkeys (List.ne_nil_of_length_pos hn1)
    have hloop := multisigLoop_iff.mpr
      ⟨es, rfl, hkeys, [valueToOpN es.length, opCheckmultisig], rfl, rfl⟩
    unfold scriptpubkeyIsMultisig
    simp only [List.singleton_append, List.cons_append, List.nil_append]
    have hl : (valueToOpN m :: (es.flatten ++ [valueToOpN es.length, opCheckmultisig])).length =
        es.flatten.length + 3 := by simp
    rw [if_neg (by rw [hl]; omega), getD_length_sub_two]
    simp only [getD_length_sub_one]
    simp [scriptIsOpN_valueToOpN hm1 hm16, scriptIsOpN_valueToOpN hn1 hn16, hloop]

/-! ### The CSV-recovery templates -/

/-- `scriptpubkey_is_csv_2of2_then_1`: the delay it stores through `csv_blocks` on a match. -/
def scriptpubkeyIsCsv2of2Then1 (bytes : Bytes) : Option Nat :=
  let minLen := 9 + 2 * (ecPublicKeyLen + 1) + 2
  if bytes.length < minLen ∨ bytes.length > minLen + 2 then none
  else if bytes.getD 0 0 ≠ opDepth ∨ bytes.getD 1 0 ≠ op1sub ∨ bytes.getD 2 0 ≠ opIf ∨
      (bytes.getD 3 0).toNat ≠ ecPublicKeyLen ∨
      bytes.getD (ecPublicKeyLen + 4) 0 ≠ opChecksigverify ∨
      bytes.getD (ecPublicKeyLen + 5) 0 ≠ opElse then none
  else
    let bytes := bytes.drop (ecPublicKeyLen + 6)
    match scriptintFromBytes bytes with
    | .error _ => none
    | .ok blocks =>
      if blocks < 17 ∨ blocks > 65535 then none
      else
        let bytes := bytes.drop ((bytes.getD 0 0).toNat + 1)
        if bytes.length < 3 + (ecPublicKeyLen + 1) + 1 then none
        else if bytes.getD 0 0 ≠ opChecksequenceverify ∨ bytes.getD 1 0 ≠ opDrop ∨
            bytes.getD 2 0 ≠ opEndif ∨ (bytes.getD 3 0).toNat ≠ ecPublicKeyLen ∨
            bytes.getD (ecPublicKeyLen + 4) 0 ≠ opChecksig then none
        else some blocks.toNat

/-- `scriptpubkey_is_csv_2of2_then_1_opt`: the delay it stores through `csv_blocks` on a match. -/
def scriptpubkeyIsCsv2of2Then1Opt (bytes : Bytes) : Option Nat :=
  let minLen := 6 + 2 * (ecPublicKeyLen + 1) + 2
  if bytes.length < minLen ∨ bytes.length > minLen + 2 then none
  else if (bytes.getD 0 0).toNat ≠ ecPublicKeyLen ∨
      bytes.getD (ecPublicKeyLen + 1) 0 ≠ opChecksigverify ∨
      (bytes.getD (ecPublicKeyLen + 2) 0).toNat ≠ ecPublicKeyLen then none
  else
    let bytes := bytes.drop (ecPublicKeyLen * 2 + 3)
    if bytes.getD 0 0 ≠ opChecksig ∨ bytes.getD 1 0 ≠ opIfdup ∨ bytes.getD 2 0 ≠ opNotif then none
    else
      let bytes := bytes.drop 3
      match scriptintFromBytes bytes with
      | .error _ => none
      | .ok blocks =>
        if blocks < 17 ∨ blocks > 65535 then none
        else
          let bytes := bytes.drop ((bytes.getD 0 0).toNat + 1)
          if bytes.length ≠ 2 ∨ bytes.getD 0 0 ≠ opChecksequenceverify ∨ bytes.getD 1 0 ≠ opEndif
          then none
          else some blocks.toNat

/-- `wally_scriptpubkey_csv_blocks_from_csv_2of2_then_1`: the return code and `*value_out`. -/
def wallyScriptpubkeyCsvBlocksFromCsv2of2Then1 (bytes : Bytes) : Ret × Nat :=
  if bytes = [] then (.einval, 0)
  else match scriptpubkeyIsCsv2of2Then1 bytes with
    | some blocks => (.ok, blocks)
    | none =>
      match scriptpubkeyIsCsv2of2Then1Opt bytes with
      | some blocks => (.ok, blocks)
      | none => (.einval, 0)

/-! ### The classifier -/

/-- An `if` neither of whose branches is `x` is not `x`; applied along the chain of answers of
`get_type`. -/
theorem ite_ne_of_ne {α : Type} {c : Prop} [Decidable c] {a b x : α} (ha : a ≠ x) (hb : b ≠ x) :
    (if c then a else b) ≠ x := by
  split <;> assumption

/-- `wally_scriptpubkey_get_type`: the return code and `*written`. Each fixed-template matcher
checks its own length, so the source's `switch (bytes_len)` is the order of the tests. -/
def wallyScriptpubkeyGetType (bytes : Bytes) : Ret × ScriptType :=
  if bytes = [] then (.einval, .unknown)
  else if scriptpubkeyIsOpReturn bytes then (.ok, .opReturn)
  else if scriptpubkeyIsMultisig bytes then (.ok, .multisig)
  else if (scriptpubkeyIsCsv2of2Then1 bytes).isSome then (.ok, .csv2of21)
  else if (scriptpubkeyIsCsv2of2Then1Opt bytes).isSome then (.ok, .csv2of21Opt)
  else if scriptpubkeyIsP2pkh bytes then (.ok, .p2pkh)
  else if scriptpubkeyIsP2sh bytes then (.ok, .p2sh)
  else if scriptpubkeyIsP2wpkh bytes then (.ok, .p2wpkh)
  else if scriptpubkeyIsP2wsh bytes then (.ok, .p2wsh)
  else if scriptpubkeyIsP2tr bytes then (.ok, .p2tr)
  else (.ok, .unknown)


/-- The first byte of a multisig script is not `OP_RETURN`, so `get_type` reaches the multisig
matcher, and the multisig matcher is the only one that answers MULTISIG. -/
theorem getType_eq_multisig_iff {s : Bytes} :
    wallyScriptpubkeyGetType s = (.ok, .multisig) ↔ scriptpubkeyIsMultisig s = true := by
  constructor
  · intro h
    by_contra hm
    simp only [wallyScriptpubkeyGetType, hm, Bool.false_eq_true, if_false] at h
    revert h
    repeat' apply ite_ne_of_ne
    all_goals decide
  · intro h
    obtain ⟨m, es, hm1, hm16, -, -, -, hs⟩ := scriptpubkeyIsMultisig_iff.mp h
    have hne : s ≠ [] := by rw [hs]; simp
    have h0 : s.getD 0 0 = valueToOpN m := by rw [hs]; rfl
    have hop : scriptpubkeyIsOpReturn s = false := by
      have : (valueToOpN m).toNat ≠ opReturn.toNat := by
        rw [valueToOpN_toNat hm1 hm16]; show 80 + m ≠ 106; omega
      simp only [scriptpubkeyIsOpReturn, h0]
      simp [byte_eq_iff, this]
    simp [wallyScriptpubkeyGetType, hne, hop, h]

/-- **Multisig grammar.** `get_type` answers MULTISIG exactly on `OP_m`, `n` key pushes in any of
the four header forms, `OP_n` and `OP_CHECKMULTISIG`, with `m` and `n` in `[1, 16]`. -/
theorem getType_multisig_grammar (s : Bytes) :
    wallyScriptpubkeyGetType s = (.ok, .multisig) ↔
      ∃ (m : Nat) (es : List Bytes), 1 ≤ m ∧ m ≤ 16 ∧ 1 ≤ es.length ∧ es.length ≤ 16 ∧
        (∀ e ∈ es, IsKeyPush e) ∧
        s = [valueToOpN m] ++ es.flatten ++ [valueToOpN es.length, opCheckmultisig] :=
  getType_eq_multisig_iff.trans scriptpubkeyIsMultisig_iff

/-! ### What the CSV matchers accept -/

/-- CSV-recovery template A around the delay push `d`, its length byte included:
`OP_DEPTH OP_1SUB OP_IF <main> OP_CHECKSIGVERIFY OP_ELSE d OP_CHECKSEQUENCEVERIFY OP_DROP OP_ENDIF
<recovery> OP_CHECKSIG`. -/
def csvScriptA (main recovery d : Bytes) : Bytes :=
  [opDepth, op1sub, opIf, 33] ++ main ++ [opChecksigverify, opElse] ++ d ++
    [opChecksequenceverify, opDrop, opEndif, 33] ++ recovery ++ [opChecksig]

/-- The optimised template around the delay push `d`, its length byte included:
`<recovery> OP_CHECKSIGVERIFY <main> OP_CHECKSIG OP_IFDUP OP_NOTIF d OP_CHECKSEQUENCEVERIFY
OP_ENDIF`. -/
def csvScriptOpt (main recovery d : Bytes) : Bytes :=
  [33] ++ recovery ++ [opChecksigverify, 33] ++ main ++ [opChecksig, opIfdup, opNotif] ++ d ++
    [opChecksequenceverify, opEndif]

/-- A delay the CSV matchers take: a script number of at most four bytes, in `[17, 65535]`. -/
structure DelayPush (d : Bytes) : Prop where
  length_le : d.length ≤ 4
  value_ge : 17 ≤ scriptnumValue d
  value_le : scriptnumValue d ≤ 65535

theorem DelayPush.ne_nil {d : Bytes} (h : DelayPush d) : d ≠ [] := by
  rintro rfl; have := h.value_ge; simp [scriptnumValue] at this

theorem scriptintFromBytes_push {d : Bytes} (hd : d.length ≤ 4) (r : Bytes) :
    scriptintFromBytes (UInt8.ofNat d.length :: (d ++ r)) = .ok (scriptnumValue d) :=
  scriptintFromBytes_eq_ok.mpr ⟨d, r, rfl, hd, rfl⟩

/-- The matchers skip a decoded delay by its length byte. -/
theorem drop_delayPush {d : Bytes} (hd : d.length ≤ 4) (r : Bytes) :
    (UInt8.ofNat d.length :: (d ++ r)).drop
      (((UInt8.ofNat d.length :: (d ++ r)).getD 0 0).toNat + 1) = r := by
  simp [Nat.mod_eq_of_lt (by omega : d.length < 256)]

/-- A buffer read as four bytes, a 33-byte field and the rest. -/
theorem eq_four_key {s : Bytes} (h : 37 ≤ s.length) :
    s = [s.getD 0 0, s.getD 1 0, s.getD 2 0, s.getD 3 0] ++ (s.drop 4).take 33 ++ s.drop 37 := by
  calc s = s.take 4 ++ ((s.drop 4).take 33 ++ (s.drop 4).drop 33) := by
        rw [List.take_append_drop, List.take_append_drop]
    _ = _ := by rw [Bytes.take_four_eq (by omega), List.drop_drop]; simp

/-- **Template A, sound.** What `scriptpubkey_is_csv_2of2_then_1` accepts is template A around a
delay push, followed by at most `3 - |d|` further bytes. -/
theorem csvA_sound {s : Bytes} {b : Nat} (h : scriptpubkeyIsCsv2of2Then1 s = some b) :
    ∃ main recovery d t, main.length = 33 ∧ recovery.length = 33 ∧ DelayPush d ∧
      d.length + t.length ≤ 3 ∧ b = (scriptnumValue d).toNat ∧
      s = csvScriptA main recovery (UInt8.ofNat d.length :: d) ++ t := by
  unfold scriptpubkeyIsCsv2of2Then1 at h
  dsimp only at h
  simp only [Option.ite_none_left_eq_some] at h
  obtain ⟨hlen, hhead, h⟩ := h
  split at h
  · cases h
  rename_i blocks hsi
  simp only [Option.ite_none_left_eq_some, Option.some.injEq] at h
  obtain ⟨hr1, hr2, hr3, rfl⟩ := h
  -- the delay push the matcher decoded, and what follows it
  obtain ⟨d, r, hdr, hd4, rfl⟩ := scriptintFromBytes_eq_ok.mp hsi
  rw [hdr, drop_delayPush hd4] at hr2 hr3
  simp only [not_or, not_lt, not_not, ecPublicKeyLen] at hlen hhead hr1 hr2 hr3
  have hl := congrArg List.length hdr
  simp only [List.length_drop, List.length_cons, List.length_append, ecPublicKeyLen] at hl
  -- the script before the push and the rest after it, each four bytes, a key and its tail
  have hs := eq_four_key (s := s) (by omega)
  rw [Bytes.drop_eq_getD_cons (k := 37) (by omega), Bytes.drop_eq_getD_cons (k := 38) (by omega),
    show s.drop (38 + 1) = _ from hdr] at hs
  have hr := eq_four_key (s := r) (by omega)
  rw [Bytes.drop_eq_getD_cons (k := 37) (by omega)] at hr
  have hml : ((s.drop 4).take 33).length = 33 := by simp; omega
  have hrl : ((r.drop 4).take 33).length = 33 := by simp; omega
  have htl : (r.drop (37 + 1)).length + 38 = r.length := by simp; omega
  generalize (s.drop 4).take 33 = main at hs hml
  generalize (r.drop 4).take 33 = recovery at hr hrl
  generalize r.drop (37 + 1) = t at hr htl
  -- the opcodes the matcher checked fill in the template
  obtain ⟨e0, e1, e2, e3, e37, e38⟩ := hhead
  obtain ⟨f0, f1, f2, f3, f37⟩ := hr3
  refine ⟨main, recovery, d, t, hml, hrl, ⟨hd4, hr1.1, hr1.2⟩, by omega, rfl, ?_⟩
  rw [e0, e1, e2, show s.getD 3 0 = 33 from byte_eq_iff.mpr e3, e37, e38] at hs
  rw [f0, f1, f2, show r.getD 3 0 = 33 from byte_eq_iff.mpr f3, f37] at hr
  rw [hs, hr]
  simp [csvScriptA]

/-- **Template A, complete.** -/
theorem csvA_complete {main recovery d t : Bytes} (hm : main.length = 33) (hr : recovery.length = 33)
    (hd : DelayPush d) (ht : d.length + t.length ≤ 3) :
    scriptpubkeyIsCsv2of2Then1 (csvScriptA main recovery (UInt8.ofNat d.length :: d) ++ t) =
      some (scriptnumValue d).toNat := by
  have hne := List.length_pos.mpr hd.ne_nil
  set B := [opChecksequenceverify, opDrop, opEndif, 33] ++ recovery ++ [opChecksig] ++ t with hB
  have hs : csvScriptA main recovery (UInt8.ofNat d.length :: d) ++ t =
      ([opDepth, op1sub, opIf, 33] ++ main ++ [opChecksigverify, opElse]) ++
        (UInt8.ofNat d.length :: (d ++ B)) := by simp [csvScriptA, hB]
  have hA : ([opDepth, op1sub, opIf, 33] ++ main ++ [opChecksigverify, opElse]).length = 39 := by
    simp [hm]
  generalize hS : csvScriptA main recovery (UInt8.ofNat d.length :: d) ++ t = s at hs ⊢
  have hl : s.length = 40 + d.length + B.length := by rw [hs]; simp [hA]; omega
  have hBl : B.length = 38 + t.length := by simp [hB, hr]; omega
  -- the bytes the matcher reads, one by one
  have hget : ∀ i < 39, s.getD i 0 =
      ([opDepth, op1sub, opIf, 33] ++ main ++ [opChecksigverify, opElse]).getD i 0 := fun i hi => by
    rw [hs, List.getD_append _ _ _ _ (by omega)]
  have h37 : s.getD (ecPublicKeyLen + 4) 0 = opChecksigverify := by
    rw [hget _ (by decide), List.append_assoc, Bytes.getD_append_of_eq (i := 33) (n := ecPublicKeyLen + 4) (by rfl),
      Bytes.getD_append_of_eq (i := 0) (n := 33) (by rw [hm])]; rfl
  have h38 : s.getD (ecPublicKeyLen + 5) 0 = opElse := by
    rw [hget _ (by decide), List.append_assoc, Bytes.getD_append_of_eq (i := 34) (n := ecPublicKeyLen + 5) (by rfl),
      Bytes.getD_append_of_eq (i := 1) (n := 34) (by rw [hm])]; rfl
  have hdrop : s.drop (ecPublicKeyLen + 6) = UInt8.ofNat d.length :: (d ++ B) := by
    rw [hs]; exact List.drop_left' hA
  have hB37 : B.getD (ecPublicKeyLen + 4) 0 = opChecksig := by
    rw [hB, List.append_assoc, List.append_assoc, Bytes.getD_append_of_eq (i := 33) (n := ecPublicKeyLen + 4) (by rfl),
      Bytes.getD_append_of_eq (i := 0) (n := 33) (by rw [hr])]; rfl
  -- the matcher's checks, each on a byte read above
  have hv := hd.value_ge
  have hv' := hd.value_le
  unfold scriptpubkeyIsCsv2of2Then1
  simp only [hget 0 (by decide), hget 1 (by decide), hget 2 (by decide), hget 3 (by decide), h37, h38,
    hdrop, scriptintFromBytes_push hd.length_le, drop_delayPush hd.length_le, hB37]
  simp [hl, hB, hr, ecPublicKeyLen, hv, hv']
  omega

/-- **Optimised template, sound.** What `scriptpubkey_is_csv_2of2_then_1_opt` accepts is the
optimised template around a delay push of at most three bytes, and nothing after it. -/
theorem csvOpt_sound {s : Bytes} {b : Nat} (h : scriptpubkeyIsCsv2of2Then1Opt s = some b) :
    ∃ main recovery d, main.length = 33 ∧ recovery.length = 33 ∧ DelayPush d ∧
      d.length ≤ 3 ∧ b = (scriptnumValue d).toNat ∧
      s = csvScriptOpt main recovery (UInt8.ofNat d.length :: d) := by
  unfold scriptpubkeyIsCsv2of2Then1Opt at h
  dsimp only at h
  simp only [Option.ite_none_left_eq_some] at h
  obtain ⟨hlen, hhead, hmid, h⟩ := h
  split at h
  · cases h
  rename_i blocks hsi
  simp only [Option.ite_none_left_eq_some, Option.some.injEq] at h
  obtain ⟨hr1, hr2, rfl⟩ := h
  -- the delay push the matcher decoded, and the two opcodes after it, which end the script
  obtain ⟨d, r, hdr, hd4, rfl⟩ := scriptintFromBytes_eq_ok.mp hsi
  rw [hdr, drop_delayPush hd4] at hr2
  simp only [not_or, not_lt, not_not, ecPublicKeyLen] at hlen hhead hmid hr1 hr2
  obtain ⟨hr2, r0, r1⟩ := hr2
  obtain _ | ⟨u, _ | ⟨v, _ | ⟨w, r⟩⟩⟩ := r <;> simp at hr2
  simp only [List.getD_cons_zero, List.getD_cons_succ] at r0 r1
  subst r0 r1
  rw [List.drop_drop] at hdr
  have hl := congrArg List.length hdr
  simp only [List.length_drop, List.length_cons, List.length_append] at hl
  obtain ⟨e0, e34, e35⟩ := hhead
  simp only [Bytes.getD_drop] at hmid
  obtain ⟨g0, g1, g2⟩ := hmid
  -- the script cut at the bytes the matcher checked, around the two keys
  have p0 : s = s.getD 0 0 :: s.drop 1 := by rw [← Bytes.drop_eq_getD_cons (by omega)]; rfl
  have p34 : s.drop 34 = s.getD 34 0 :: s.getD 35 0 :: s.drop 36 := by
    rw [Bytes.drop_eq_getD_cons (k := 34) (by omega), Bytes.drop_eq_getD_cons (k := 35) (by omega)]
  have p69 : s.drop 69 = s.getD 69 0 :: s.getD 70 0 :: s.getD 71 0 :: s.drop 72 := by
    rw [Bytes.drop_eq_getD_cons (k := 69) (by omega), Bytes.drop_eq_getD_cons (k := 70) (by omega),
      Bytes.drop_eq_getD_cons (k := 71) (by omega)]
  have hs : s = s.getD 0 0 :: ((s.drop 1).take 33 ++ s.getD 34 0 :: s.getD 35 0 ::
      ((s.drop 36).take 33 ++ s.getD 69 0 :: s.getD 70 0 :: s.getD 71 0 :: s.drop 72)) := by
    rw [← p69, ← Bytes.drop_eq_take_append, ← p34, ← Bytes.drop_eq_take_append, ← p0]
  have hml : ((s.drop 36).take 33).length = 33 := by simp; omega
  have hrl : ((s.drop 1).take 33).length = 33 := by simp; omega
  generalize (s.drop 36).take 33 = main at hs hml
  generalize (s.drop 1).take 33 = recovery at hs hrl
  refine ⟨main, recovery, d, hml, hrl, ⟨hd4, hr1.1, hr1.2⟩, by simp [ecPublicKeyLen] at hl; omega, rfl, ?_⟩
  rw [hs, show s.drop 72 = _ from hdr, show s.getD 0 0 = 33 from byte_eq_iff.mpr e0,
    show s.getD 34 0 = _ from e34, show s.getD 35 0 = 33 from byte_eq_iff.mpr e35,
    show s.getD 69 0 = _ from g0, show s.getD 70 0 = _ from g1, show s.getD 71 0 = _ from g2]
  simp [csvScriptOpt]

/-- **Optimised template, complete.** -/
theorem csvOpt_complete {main recovery d : Bytes} (hm : main.length = 33) (hr : recovery.length = 33)
    (hd : DelayPush d) (h3 : d.length ≤ 3) :
    scriptpubkeyIsCsv2of2Then1Opt (csvScriptOpt main recovery (UInt8.ofNat d.length :: d)) =
      some (scriptnumValue d).toNat := by
  have hne := List.length_pos.mpr hd.ne_nil
  set Y : Bytes := opChecksig :: opIfdup :: opNotif ::
    UInt8.ofNat d.length :: (d ++ [opChecksequenceverify, opEndif]) with hY
  have hs1 : csvScriptOpt main recovery (UInt8.ofNat d.length :: d) =
      ([33] ++ recovery) ++ (opChecksigverify :: 33 :: (main ++ Y)) := by simp [csvScriptOpt, hY]
  have hs2 : csvScriptOpt main recovery (UInt8.ofNat d.length :: d) =
      ([33] ++ recovery ++ [opChecksigverify, 33] ++ main) ++ Y := by simp [csvScriptOpt, hY]
  generalize csvScriptOpt main recovery (UInt8.ofNat d.length :: d) = s at hs1 hs2
  have hP : ([33] ++ recovery).length = 34 := by simp [hr]
  have hl : s.length = 75 + d.length := by rw [hs2]; simp [hm, hr, hY]; omega
  have h0 : s.getD 0 0 = 33 := by rw [hs1]; rfl
  have h34 : s.getD (ecPublicKeyLen + 1) 0 = opChecksigverify := by
    rw [hs1, Bytes.getD_append_of_eq (i := 0) (by rw [hP]; rfl)]; rfl
  have h35 : s.getD (ecPublicKeyLen + 2) 0 = 33 := by
    rw [hs1, Bytes.getD_append_of_eq (i := 1) (by rw [hP]; rfl)]; rfl
  have h69 : s.drop (ecPublicKeyLen * 2 + 3) = Y := by
    rw [hs2]; exact List.drop_left' (by simp [hm, hr]; rfl)
  -- the matcher's checks, each on a byte read above
  have hv := hd.value_ge
  have hv' := hd.value_le
  unfold scriptpubkeyIsCsv2of2Then1Opt
  simp only [h0, h34, h35, h69, hY, List.drop_succ_cons, List.drop_zero,
    scriptintFromBytes_push hd.length_le, drop_delayPush hd.length_le]
  simp [hl, ecPublicKeyLen, hv, hv']
  omega

/-! ### Classifying the CSV templates -/

theorem scriptpubkeyIsMultisig_of_head {s : Bytes} (h : scriptIsOpN (s.getD 0 0) false = none) :
    scriptpubkeyIsMultisig s = false := by
  unfold scriptpubkeyIsMultisig; split_ifs
  · rfl
  · simp only [h]

theorem scriptpubkeyIsOpReturn_of_head {s : Bytes} (h : s.getD 0 0 ≠ opReturn) :
    scriptpubkeyIsOpReturn s = false := by
  simp only [scriptpubkeyIsOpReturn, h, and_false, decide_False]

theorem scriptIsOpN_of_lt {op : UInt8} (h : op.toNat < 81) : scriptIsOpN op false = none := by
  simp [scriptIsOpN]; omega

theorem scriptIsOpN_of_gt {op : UInt8} (h : 96 < op.toNat) : scriptIsOpN op false = none := by
  simp [scriptIsOpN]; omega

theorem scriptpubkeyIsCsv2of2Then1_of_head {s : Bytes} (h : s.getD 0 0 ≠ opDepth) :
    scriptpubkeyIsCsv2of2Then1 s = none := by
  unfold scriptpubkeyIsCsv2of2Then1
  dsimp only
  split
  · rfl
  · rw [if_pos (Or.inl h)]

theorem ne_nil_of_head {s : Bytes} {x : UInt8} (h : s.getD 0 0 = x) (hx : x ≠ 0) : s ≠ [] := by
  rintro rfl; exact hx h.symm

/-- The classifier answers CSV2OF2_1 exactly where template A's matcher matches. -/
theorem getType_eq_csv2of21_iff {s : Bytes} :
    wallyScriptpubkeyGetType s = (.ok, .csv2of21) ↔ (scriptpubkeyIsCsv2of2Then1 s).isSome := by
  constructor
  · intro h
    by_contra hm
    simp only [wallyScriptpubkeyGetType, hm, Bool.false_eq_true, if_false] at h
    revert h
    repeat' apply ite_ne_of_ne
    all_goals decide
  · intro h
    obtain ⟨b, hb⟩ := Option.isSome_iff_exists.mp h
    obtain ⟨main, recovery, d, t, -, -, -, -, -, hs⟩ := csvA_sound hb
    have h0 : s.getD 0 0 = opDepth := by rw [hs]; rfl
    have hop : s.getD 0 0 ≠ opReturn := by rw [h0]; decide
    have hn : scriptIsOpN (s.getD 0 0) false = none := by rw [h0]; exact scriptIsOpN_of_gt (by decide)
    simp [wallyScriptpubkeyGetType, ne_nil_of_head h0 (by decide), scriptpubkeyIsOpReturn_of_head hop,
      scriptpubkeyIsMultisig_of_head hn, hb]

/-- The classifier answers CSV2OF2_1_OPT exactly where the optimised template's matcher matches. -/
theorem getType_eq_csv2of21Opt_iff {s : Bytes} :
    wallyScriptpubkeyGetType s = (.ok, .csv2of21Opt) ↔ (scriptpubkeyIsCsv2of2Then1Opt s).isSome := by
  constructor
  · intro h
    by_contra hm
    simp only [wallyScriptpubkeyGetType, hm, Bool.false_eq_true, if_false] at h
    revert h
    repeat' apply ite_ne_of_ne
    all_goals decide
  · intro h
    obtain ⟨b, hb⟩ := Option.isSome_iff_exists.mp h
    obtain ⟨main, recovery, d, -, -, -, -, -, hs⟩ := csvOpt_sound hb
    have h0 : s.getD 0 0 = 33 := by rw [hs]; rfl
    have hop : s.getD 0 0 ≠ opReturn := by rw [h0]; decide
    have hA : s.getD 0 0 ≠ opDepth := by rw [h0]; decide
    have hn : scriptIsOpN (s.getD 0 0) false = none := by rw [h0]; exact scriptIsOpN_of_lt (by decide)
    simp [wallyScriptpubkeyGetType, ne_nil_of_head h0 (by decide), scriptpubkeyIsOpReturn_of_head hop,
      scriptpubkeyIsMultisig_of_head hn, scriptpubkeyIsCsv2of2Then1_of_head hA, hb]

end WallyScript
