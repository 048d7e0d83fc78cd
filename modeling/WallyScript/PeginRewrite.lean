import WallyScript.Pegin
import WallyScript.Agreement

/-!
# What the peg-in contract rewrite does

`Pegin.lean` models `wally_elements_pegin_contract_script_from_bytes` as the source runs it. This
module says what the function is for, over the tokens of the redeem script, and shows that the
loop computes it.

The walk reads the redeem script as tokens: a push as `get_push_size` decodes it, header and
payload, or a single byte where it decodes none (`scriptTokens`). After a truncated or
overrunning `PUSHDATA` header the walk therefore takes the header byte alone and reads the
payload bytes that follow as opcodes. Up to the first `OP_ELSE` token, a token that is a direct
push of 33 bytes carries a key `P`; the contract replaces `P` by `peginTweak P`, the compressed
serialisation of `P + HMAC-SHA256(P, script)·G`, which exists when every collaborator call
succeeds and the sanity check of elementsd holds. Everything else is copied
(`peginRewrite`).

* `peginLoop_refines`: from any offset, the loop stores the rewritten tokens, or fails with
  `WALLY_ERROR` exactly where the rewrite fails;
* `peginRewrite_getD`, `peginRewrite_payload` and `peginRewrite_eq_none`: the rewrite keeps
  every byte outside the key payloads, puts the tweak of each payload in its place, and fails
  only where the tweak of one of them does;
* `scriptTokens_multisig`: the walk reads a bare multisig script as the classifier does, `OP_m`,
  each key push, `OP_n` and `OP_CHECKMULTISIG`, one token each;
* `pegin_contract_rewrite`: the function's return code on every valid buffer, and on success a
  buffer of the redeem script's length that differs from it only at the key payloads, each
  replaced by the serialisation of the tweaked key.
-/

namespace WallyScript

/-! ### Tokens -/

/-- The length of the token at the front of `b` as the peg-in walk reads it: `size_out +
opcode_size` for a push that `get_push_size` decodes, one byte otherwise. -/
def tokenLength (b : Bytes) : Nat :=
  match getPushSize 64 b false, getPushSize 64 b true with
  | .ok sizeOut, .ok opcodeSize => sizeOut + opcodeSize
  | _, _ => 1

theorem getPushSize_true_of_false {w : Nat} {b : Bytes} {n : Nat}
    (h : getPushSize w b false = .ok n) : ∃ k, getPushSize w b true = .ok k := by
  obtain ⟨k, n', hr, hle, -⟩ := getPushSize_eq_ok.mp h
  exact ⟨k, getPushSize_eq_ok.mpr ⟨k, n', hr, hle, rfl⟩⟩

theorem tokenLength_of_ok {b : Bytes} {k n : Nat} (hk : getPushSize 64 b true = .ok k)
    (hn : getPushSize 64 b false = .ok n) : tokenLength b = n + k := by
  simp only [tokenLength, hk, hn]

theorem tokenLength_of_error {b : Bytes} {e : Ret} (hn : getPushSize 64 b false = .error e) :
    tokenLength b = 1 := by
  simp only [tokenLength, hn]

theorem tokenLength_pos_le {b : Bytes} (hb : b ≠ []) : 1 ≤ tokenLength b ∧ tokenLength b ≤ b.length := by
  cases hn : getPushSize 64 b false with
  | error e =>
    rw [tokenLength_of_error hn]
    exact ⟨le_rfl, List.length_pos.mpr hb⟩
  | ok n =>
    obtain ⟨k, hk⟩ := getPushSize_true_of_false hn
    have := getPushSize_le_length hk hn
    rw [tokenLength_of_ok hk hn]
    omega

/-- The tokens of a script as the peg-in walk reads them, front to back. -/
def scriptTokens (b : Bytes) : List Bytes :=
  if _hb : b = [] then []
  else b.take (tokenLength b) :: scriptTokens (b.drop (tokenLength b))
termination_by b.length
decreasing_by
  have := tokenLength_pos_le _hb
  simp only [List.length_drop]
  omega

@[simp] theorem scriptTokens_nil : scriptTokens [] = [] := by
  rw [scriptTokens, dif_pos rfl]

theorem scriptTokens_of_ne_nil {b : Bytes} (hb : b ≠ []) :
    scriptTokens b = b.take (tokenLength b) :: scriptTokens (b.drop (tokenLength b)) := by
  rw [scriptTokens, dif_neg hb]

/-- The tokens make up the script. -/
theorem flatten_scriptTokens (b : Bytes) : (scriptTokens b).flatten = b := by
  obtain ⟨n, hn⟩ : ∃ n, b.length = n := ⟨_, rfl⟩
  induction n using Nat.strong_induction_on generalizing b with
  | _ n ih =>
    by_cases hb : b = []
    · rw [hb, scriptTokens_nil]; rfl
    have := tokenLength_pos_le hb
    rw [scriptTokens_of_ne_nil hb, List.flatten_cons,
      ih _ (by simp only [List.length_drop]; omega) _ rfl, List.take_append_drop]

/-- The key a token carries when it is a direct push of 33 bytes: the byte `0x21`, then the
key. -/
def tokenKey : Bytes → Option Bytes
  | [] => none
  | op :: key => if op = UInt8.ofNat ecPublicKeyLen ∧ key.length = ecPublicKeyLen then some key
    else none

theorem tokenKey_eq_some {t key : Bytes} (h : tokenKey t = some key) :
    t = UInt8.ofNat ecPublicKeyLen :: key ∧ key.length = ecPublicKeyLen := by
  obtain _ | ⟨op, key'⟩ := t
  · cases h
  simp only [tokenKey] at h
  split_ifs at h with hk
  cases h
  exact ⟨by rw [hk.1], hk.2⟩

/-- `OP_ELSE` starts no push. -/
theorem getPushSize_opElse (rest : Bytes) (g : Bool) :
    getPushSize 64 (opElse :: rest) g = .error .einval := rfl

/-- A push that decodes is a key exactly when its header is the single byte `0x21`. -/
theorem tokenKey_push {b : Bytes} {k n : Nat} (hk : getPushSize 64 b true = .ok k)
    (hn : getPushSize 64 b false = .ok n) :
    tokenKey (b.take (n + k)) = if k = 1 ∧ n = ecPublicKeyLen then
      some ((b.drop 1).take ecPublicKeyLen) else none := by
  have hle := getPushSize_le_length hk hn
  obtain ⟨k', n', hr, -, hk'⟩ := getPushSize_eq_ok.mp hk
  obtain ⟨_, _, hr', -, hn'⟩ := getPushSize_eq_ok.mp hn
  rw [hr] at hr'
  cases hr'
  simp only [if_true, if_false, Bool.false_eq_true] at hk' hn'
  subst hk' hn'
  obtain _ | ⟨op, rest⟩ := b
  · simp at hle; omega
  -- the header `0x21` is the one that declares a direct push of 33 bytes
  have hop : op = UInt8.ofNat ecPublicKeyLen ↔ k = 1 ∧ n = ecPublicKeyLen := by
    constructor
    · rintro rfl
      have : readPushHeader (UInt8.ofNat ecPublicKeyLen :: rest) = some (1, ecPublicKeyLen) := rfl
      rw [this] at hr
      cases hr
      exact ⟨rfl, rfl⟩
    · rintro ⟨rfl, rfl⟩
      obtain ⟨f, hf, -, hb⟩ := readPushHeader_eq_some.mp hr
      cases f <;> cases hf
      simp only [PushForm.header, List.singleton_append, List.cons.injEq] at hb
      exact hb.1
  rw [Nat.add_comm, List.take_cons (by omega)]
  simp only [tokenKey, List.drop_one, List.tail_cons]
  by_cases h : k = 1 ∧ n = ecPublicKeyLen
  · obtain ⟨rfl, rfl⟩ := h
    have hl : (rest.take ecPublicKeyLen).length = ecPublicKeyLen := by
      simp only [List.length_cons] at hle; simp [ecPublicKeyLen] at hle ⊢; omega
    rw [Nat.add_sub_cancel_left, if_pos ⟨hop.mpr ⟨rfl, rfl⟩, hl⟩, if_pos ⟨rfl, rfl⟩]
  · rw [if_neg h, if_neg (fun h' => h (hop.mp h'.1))]

/-! ### The rewrite -/

/-- The tweak of elementsd on a key `key` of the contract `script`: the compressed serialisation
of `key + HMAC-SHA256(key, script)·G`, when every collaborator call succeeds and the sanity check
`-key + (key + t·G) = t·G` holds on their results. -/
def peginTweak (c : Collab) (key script : Bytes) : Option Bytes := do
  let pubKey ← c.pubkeyParse key
  let tweak := c.hmacSha256 key script
  let pubKeyTweaked ← c.pubkeyTweakAdd pubKey tweak
  let serPubKey ← c.pubkeySerialize pubKeyTweaked
  let pubKeyFromTweak ← c.pubkeyCreate tweak
  let negated ← c.pubkeyNegate pubKey
  let combined ← c.pubkeyCombine negated pubKeyTweaked
  if combined = pubKeyFromTweak then some serPubKey else none

/-- What the tweak is: the serialisation of the parsed key, tweaked by the HMAC. -/
theorem peginTweak_eq_some {c : Collab} {key script ser : Bytes}
    (h : peginTweak c key script = some ser) :
    ∃ pubKey pubKeyTweaked, c.pubkeyParse key = some pubKey ∧
      c.pubkeyTweakAdd pubKey (c.hmacSha256 key script) = some pubKeyTweaked ∧
      c.pubkeySerialize pubKeyTweaked = some ser := by
  simp only [peginTweak, Option.bind_eq_bind, Option.bind_eq_some, Option.ite_none_right_eq_some,
    Option.some.injEq] at h
  obtain ⟨pubKey, hp, pubKeyTweaked, ht, ser', hs, -, -, -, -, -, -, -, rfl⟩ := h
  exact ⟨pubKey, pubKeyTweaked, hp, ht, hs⟩

theorem length_of_peginTweak {c : Collab} {key script ser : Bytes}
    (h : peginTweak c key script = some ser) : ser.length = ecPublicKeyLen := by
  obtain ⟨_, _, -, -, hs⟩ := peginTweak_eq_some h
  exact c.pubkeySerialize_length _ _ hs

/-- The rewrite of the peg-in contract over the tokens of a redeem script: up to the first
`OP_ELSE` token, the key of each direct 33-byte push is replaced by `tweak key`, and the rest is
copied. It fails where a tweak fails. -/
def peginRewrite (tweak : Bytes → Option Bytes) : List Bytes → Option (List Bytes)
  | [] => some []
  | t :: ts =>
    if t = [opElse] then some (t :: ts)
    else match tokenKey t with
      | some key => match tweak key with
        | some ser => ((UInt8.ofNat ecPublicKeyLen :: ser) :: ·) <$> peginRewrite tweak ts
        | none => none
      | none => (t :: ·) <$> peginRewrite tweak ts

/-- The offsets of the key payloads the rewrite replaces, in the script the tokens `ts` make up:
one past the header byte of each direct 33-byte push before the first `OP_ELSE` token. -/
def keyOffsets : List Bytes → List Nat
  | [] => []
  | t :: ts =>
    if t = [opElse] then []
    else (if (tokenKey t).isSome then [1] else []) ++ (keyOffsets ts).map (t.length + ·)

theorem mem_keyOffsets_cons {t : Bytes} {ts : List Bytes} (ht : t ≠ [opElse]) {off : Nat} :
    off ∈ keyOffsets (t :: ts) ↔
      ((tokenKey t).isSome ∧ off = 1) ∨ ∃ off' ∈ keyOffsets ts, off = t.length + off' := by
  rw [keyOffsets, if_neg ht, List.mem_append, List.mem_map]
  split_ifs with hk <;> simp [hk, eq_comm]

/-- What the rewrite makes of one token before `OP_ELSE`: a key token becomes the header byte and
the tweak of its key, and every other token stays. -/
def TokenRewrites (tweak : Bytes → Option Bytes) (t t' : Bytes) : Prop :=
  match tokenKey t with
  | some key => ∃ ser, tweak key = some ser ∧ t' = UInt8.ofNat ecPublicKeyLen :: ser
  | none => t' = t

section Rewrite

variable {tweak : Bytes → Option Bytes}

/-- One token of the rewrite before `OP_ELSE`. -/
theorem peginRewrite_cons_eq_some {t : Bytes} {ts ts' : List Bytes} (ht : t ≠ [opElse]) :
    peginRewrite tweak (t :: ts) = some ts' ↔
      ∃ t'' ts'', TokenRewrites tweak t t'' ∧ peginRewrite tweak ts = some ts'' ∧
        ts' = t'' :: ts'' := by
  rw [peginRewrite, if_neg ht]
  unfold TokenRewrites
  simp only [Option.map_eq_map]
  split
  · -- a key token: rewritten when its tweak succeeds
    rename_i key hkey
    split
    · rename_i ser hser
      constructor
      · intro h
        obtain ⟨ts'', hr, rfl⟩ := Option.map_eq_some'.mp h
        exact ⟨_, ts'', ⟨ser, hser, rfl⟩, hr, rfl⟩
      · rintro ⟨_, ts'', ⟨ser', hser', rfl⟩, hr, rfl⟩
        rw [hser] at hser'
        cases hser'
        rw [hr]; rfl
    · rename_i hser
      constructor
      · intro h; cases h
      · rintro ⟨_, _, ⟨ser', hser', -⟩, -⟩
        rw [hser] at hser'; cases hser'
  · -- any other token is copied
    constructor
    · intro h
      obtain ⟨ts'', hr, rfl⟩ := Option.map_eq_some'.mp h
      exact ⟨t, ts'', rfl, hr, rfl⟩
    · rintro ⟨_, ts'', rfl, hr, rfl⟩
      rw [hr]; rfl

/-- The payload of a key token is its key. -/
theorem payload_of_tokenKey {t key : Bytes} (h : tokenKey t = some key) (rest : Bytes) :
    ((t ++ rest).drop 1).take ecPublicKeyLen = key := by
  obtain ⟨rfl, hk⟩ := tokenKey_eq_some h
  rw [List.cons_append, List.drop_one, List.tail_cons, ← hk, List.take_left]

variable (htw : ∀ key ser, tweak key = some ser → ser.length = ecPublicKeyLen)
include htw

theorem length_of_tokenRewrites {t t' : Bytes} (h : TokenRewrites tweak t t') :
    t'.length = t.length := by
  unfold TokenRewrites at h
  split at h
  · rename_i key hkey
    obtain ⟨ser, hser, rfl⟩ := h
    obtain ⟨rfl, hk⟩ := tokenKey_eq_some hkey
    simp [htw _ _ hser, hk]
  · rw [h]

/-- **The rewrite keeps the script's length.** -/
theorem length_peginRewrite :
    ∀ {ts ts' : List Bytes}, peginRewrite tweak ts = some ts' →
      ts'.flatten.length = ts.flatten.length
  | [], ts', h => by cases h; rfl
  | t :: ts, ts', h => by
    by_cases he : t = [opElse]
    · rw [peginRewrite, if_pos he] at h
      cases h; rfl
    obtain ⟨t'', ts'', htr, hr, rfl⟩ := (peginRewrite_cons_eq_some he).mp h
    simp only [List.flatten_cons, List.length_append, length_of_tokenRewrites htw htr,
      length_peginRewrite hr]

/-- **The rewrite keeps every byte outside the key payloads.** -/
theorem peginRewrite_getD :
    ∀ {ts ts' : List Bytes}, peginRewrite tweak ts = some ts' → ∀ i : Nat,
      (∀ off ∈ keyOffsets ts, i < off ∨ off + ecPublicKeyLen ≤ i) →
      ts'.flatten.getD i 0 = ts.flatten.getD i 0
  | [], ts', h, _, _ => by cases h; rfl
  | t :: ts, ts', h, i, hi => by
    by_cases he : t = [opElse]
    · rw [peginRewrite, if_pos he] at h
      cases h; rfl
    obtain ⟨t'', ts'', htr, hr, rfl⟩ := (peginRewrite_cons_eq_some he).mp h
    have hlen := length_of_tokenRewrites htw htr
    simp only [List.flatten_cons]
    by_cases hit : i < t.length
    · -- inside the first token: a key token changes only its payload, from offset 1 on
      rw [List.getD_append _ _ _ _ (hlen ▸ hit), List.getD_append _ _ _ _ hit]
      unfold TokenRewrites at htr
      split at htr
      · rename_i key hkey
        obtain ⟨ser, -, rfl⟩ := htr
        obtain ⟨rfl, hk⟩ := tokenKey_eq_some hkey
        have := hi 1 ((mem_keyOffsets_cons he).mpr (.inl ⟨by simp [hkey], rfl⟩))
        simp only [List.length_cons, hk] at hit this
        obtain rfl : i = 0 := by omega
        rfl
      · rw [htr]
    · -- behind it, the offsets move by the token's length, which the rewrite keeps
      rw [List.getD_append_right _ _ _ _ (by omega), List.getD_append_right _ _ _ _ (by omega), hlen]
      refine peginRewrite_getD hr _ fun off' hoff' => ?_
      have := hi _ ((mem_keyOffsets_cons he).mpr (.inr ⟨off', hoff', rfl⟩))
      omega

/-- **The rewrite tweaks every key payload.** At each key offset, the rewritten script holds the
tweak of the payload the script holds there. -/
theorem peginRewrite_payload :
    ∀ {ts ts' : List Bytes}, peginRewrite tweak ts = some ts' → ∀ off ∈ keyOffsets ts,
      tweak ((ts.flatten.drop off).take ecPublicKeyLen) =
        some ((ts'.flatten.drop off).take ecPublicKeyLen)
  | [], _, _, off, hoff => by simp [keyOffsets] at hoff
  | t :: ts, ts', h, off, hoff => by
    by_cases he : t = [opElse]
    · rw [keyOffsets, if_pos he] at hoff
      cases hoff
    obtain ⟨t'', ts'', htr, hr, rfl⟩ := (peginRewrite_cons_eq_some he).mp h
    have hlen := length_of_tokenRewrites htw htr
    simp only [List.flatten_cons]
    rcases (mem_keyOffsets_cons he).mp hoff with ⟨hk, rfl⟩ | ⟨off', hoff', rfl⟩
    · obtain ⟨key, hkey⟩ := Option.isSome_iff_exists.mp hk
      unfold TokenRewrites at htr
      rw [hkey] at htr
      obtain ⟨ser, hser, rfl⟩ := htr
      have hs := htw _ _ hser
      rw [payload_of_tokenKey hkey, List.cons_append, List.drop_one, List.tail_cons, ← hs,
        List.take_left, hser]
    · rw [List.drop_append, ← hlen, List.drop_append]
      exact peginRewrite_payload hr off' hoff'

end Rewrite

/-- **The rewrite fails only at a key.** When it fails, the tweak fails on the payload at one of
the key offsets. -/
theorem peginRewrite_eq_none {tweak : Bytes → Option Bytes} :
    ∀ {ts : List Bytes}, peginRewrite tweak ts = none →
      ∃ off ∈ keyOffsets ts, tweak ((ts.flatten.drop off).take ecPublicKeyLen) = none
  | [], h => by cases h
  | t :: ts, h => by
    by_cases he : t = [opElse]
    · rw [peginRewrite, if_pos he] at h
      cases h
    have hrest : peginRewrite tweak ts = none →
        ∃ off ∈ keyOffsets (t :: ts),
          tweak (((t :: ts).flatten.drop off).take ecPublicKeyLen) = none := fun hr => by
      obtain ⟨off', hoff', hnone⟩ := peginRewrite_eq_none hr
      refine ⟨_, (mem_keyOffsets_cons he).mpr (.inr ⟨off', hoff', rfl⟩), ?_⟩
      rwa [List.flatten_cons, List.drop_append]
    rw [peginRewrite, if_neg he] at h
    split at h
    · rename_i key hkey
      split at h
      · simp only [Option.map_eq_map, Option.map_eq_none'] at h
        exact hrest h
      · rename_i hser
        refine ⟨1, (mem_keyOffsets_cons he).mpr (.inl ⟨by simp [hkey], rfl⟩), ?_⟩
        rwa [List.flatten_cons, payload_of_tokenKey hkey]
    · simp only [Option.map_eq_map, Option.map_eq_none'] at h
      exact hrest h

/-! ### The loop refines the rewrite -/

/-- The loop's result against the rewrite's, from offset `p` of the buffer `mem`: the buffer with
the rewritten tokens stored at `p`, or `WALLY_ERROR` where the rewrite fails. -/
def PeginRefines (mem : Bytes) (p : Nat) : Except (Ret × Bytes) Bytes → Option (List Bytes) → Prop
  | .ok mem', some ts' => mem' = mem.write p ts'.flatten
  | .error (r, _), none => r = .error
  | _, _ => False

theorem peginRefines_some {mem : Bytes} {p : Nat} {r : Except (Ret × Bytes) Bytes}
    {ts' : List Bytes} : PeginRefines mem p r (some ts') ↔ r = .ok (mem.write p ts'.flatten) := by
  rcases r with ⟨e, m⟩ | m <;> simp [PeginRefines]

theorem peginRefines_none {mem : Bytes} {p : Nat} {r : Except (Ret × Bytes) Bytes} :
    PeginRefines mem p r none ↔ ∃ m, r = .error (.error, m) := by
  rcases r with ⟨e, m⟩ | m <;> simp [PeginRefines]

/-- A store of the token `t` at `p`, followed by a run that refines the rewrite from
`p + t.length`, refines the rewrite with `t` in front. -/
theorem PeginRefines.cons {mem : Bytes} {p : Nat} {t : Bytes} {r : Except (Ret × Bytes) Bytes}
    {o : Option (List Bytes)} (h : PeginRefines (mem.write p t) (p + t.length) r o) :
    PeginRefines mem p r ((t :: ·) <$> o) := by
  rcases r with ⟨e, m⟩ | m <;> rcases o with _ | ts' <;>
    simp only [PeginRefines, Option.map_eq_map, Option.map_none', Option.map_some'] at h ⊢
  · exact h
  · rw [h, Bytes.write_write, List.flatten_cons]

/-- A key pushed by itself: the byte `0x21`, then the key. -/
theorem pushScript_key {ser : Bytes} (h : ser.length = ecPublicKeyLen) :
    pushScript ser = UInt8.ofNat ecPublicKeyLen :: ser := by
  simp [pushScript, pushOpcode, h, ecPublicKeyLen]

/-- **The tweak branch refines the tweak.** With room for the 34-byte push, the branch stores the
header byte and the tweak of the key, or fails with `WALLY_ERROR` exactly when the tweak fails. -/
theorem peginTweakKey_refines {c : Collab} {key script mem : Bytes} {q len : Nat}
    (hlen : 34 ≤ len) :
    PeginRefines mem q (peginTweakKey c key script mem q len)
      ((fun ser => [UInt8.ofNat ecPublicKeyLen :: ser]) <$> peginTweak c key script) := by
  unfold peginTweakKey peginTweak
  dsimp only
  cases hp : c.pubkeyParse key with
  | none => simp [PeginRefines]
  | some pubKey =>
  dsimp only
  cases ht : c.pubkeyTweakAdd pubKey (c.hmacSha256 key script) with
  | none => simp [PeginRefines, ht]
  | some pubKeyTweaked =>
  dsimp only
  cases hs : c.pubkeySerialize pubKeyTweaked with
  | none => simp [PeginRefines, ht, hs]
  | some ser =>
  dsimp only
  -- the serialised key is pushed in full, then the sanity check decides
  have hser := c.pubkeySerialize_length _ _ hs
  have hpush : wallyScriptPushFromBytes c ser 0 mem q len =
      ⟨.ok, 34, mem.write q (UInt8.ofNat ecPublicKeyLen :: ser)⟩ := by
    have h34 : (UInt8.ofNat ecPublicKeyLen :: ser).length = 34 := by simp [hser, ecPublicKeyLen]
    rw [wallyScriptPushFromBytes_eq (by decide) (by omega), show pushPayload c ser 0 = ser from rfl,
      Outcome.sizedAt, pushScript_key hser, h34, if_neg (by omega)]
  simp only [hpush, ht, hs, ne_eq, not_true_eq_false, if_false, Option.bind_eq_bind,
    Option.some_bind]
  cases c.pubkeyCreate (c.hmacSha256 key script) with
  | none => simp [PeginRefines]
  | some pubKeyFromTweak =>
  cases c.pubkeyNegate pubKey with
  | none => simp [PeginRefines]
  | some negated =>
  cases hc : c.pubkeyCombine negated pubKeyTweaked with
  | none => simp [PeginRefines, hc]
  | some combined =>
  by_cases he : combined = pubKeyFromTweak <;> simp [PeginRefines, hc, he]

theorem take_one_eq_getD {b : Bytes} (hb : b ≠ []) : b.take 1 = [b.getD 0 0] := by
  obtain _ | ⟨x, b⟩ := b
  · exact absurd rfl hb
  · rfl

theorem scriptGetPushOpcodeSizeFromBytes_ne_error {b : Bytes} {n : Nat}
    (hn : scriptGetPushSizeFromBytes 64 b = .ok n) (e : Ret) :
    scriptGetPushOpcodeSizeFromBytes 64 b ≠ .error e := by
  obtain ⟨k, hk⟩ := getPushSize_true_of_false hn
  intro h
  rw [scriptGetPushOpcodeSizeFromBytes, hk] at h
  cases h

/-- A push that decodes is not the token `OP_ELSE`. -/
theorem take_ne_opElse {b : Bytes} {k n : Nat} (hk : scriptGetPushOpcodeSizeFromBytes 64 b = .ok k)
    (hn : scriptGetPushSizeFromBytes 64 b = .ok n) : b.take (n + k) ≠ [opElse] := by
  have hle := getPushSize_le_length hk hn
  obtain _ | ⟨x, rest⟩ := b
  · simp at hle; omega
  rw [show n + k = (n + k - 1) + 1 by omega, List.take_succ_cons]
  intro h
  simp only [List.cons.injEq] at h
  obtain ⟨rfl, -⟩ := h
  rw [scriptGetPushSizeFromBytes, getPushSize_opElse] at hn
  cases hn

/-- **After `OP_ELSE` the loop copies.** From an offset `p` with the rest of the redeem script,
once `OP_ELSE` has been seen, the loop stores the rest unchanged. -/
theorem peginLoop_found {c : Collab} {script : Bytes} {flags : UInt32} :
    ∀ (n : Nat) (rest mem : Bytes) (p : Nat), rest.length ≤ n → rest ≠ [] →
      peginLoop c script flags rest mem p true = .ok (mem.write p rest) := by
  intro n
  induction n using Nat.strong_induction_on with
  | _ n ih =>
    intro rest mem p hn hne
    -- a copy of the first `k` bytes, then the loop ends or copies the rest
    have hnext : ∀ k : Nat, 1 ≤ k → k ≤ rest.length →
        (if rest.length - k = 0 then .ok (mem.write p (rest.take k))
          else peginLoop c script flags (rest.drop k) (mem.write p (rest.take k)) (p + k) true) =
        .ok (mem.write p rest) := by
      intro k hk hkr
      split
      · rw [List.take_of_length_le (by omega)]
      · have hw := @Bytes.write_write mem (rest.take k) (rest.drop k) p
        rw [List.length_take_of_le hkr, List.take_append_drop] at hw
        rw [ih _ (by simp only [List.length_drop]; omega) _ _ _ le_rfl
          (by rw [ne_eq, List.drop_eq_nil_iff]; omega), hw]
    rw [peginLoop]
    split
    · -- a push that decodes is copied whole
      rename_i sizeOut hsize
      split
      · exact absurd ‹_› (scriptGetPushOpcodeSizeFromBytes_ne_error hsize _)
      rename_i opcodeSize hop
      have hle := getPushSize_le_length hop hsize
      dsimp only
      rw [if_neg (by omega), if_neg (by simp)]
      exact hnext _ (by omega) (by omega)
    · -- otherwise the first byte is
      dsimp only
      rw [ite_self, ← take_one_eq_getD hne]
      exact hnext 1 le_rfl (List.length_pos.mpr hne)

/-- **The loop refines the rewrite.** From an offset `p` with the rest of the redeem script, not
empty, before `OP_ELSE`, the loop stores the rewritten tokens of the rest at `p`, or fails with
`WALLY_ERROR` exactly where the rewrite fails. -/
theorem peginLoop_refines {c : Collab} {script : Bytes} :
    ∀ (n : Nat) (rest mem : Bytes) (p : Nat), rest.length ≤ n → rest ≠ [] →
      PeginRefines mem p (peginLoop c script 0 rest mem p false)
        (peginRewrite (peginTweak c · script) (scriptTokens rest)) := by
  intro n
  induction n using Nat.strong_induction_on with
  | _ n ih =>
    intro rest mem p hn hne
    -- after a store of `t'` over the first `k` bytes, the loop ends or runs on the rest
    have hnext : ∀ (t' : Bytes) (k : Nat), 1 ≤ k → k ≤ rest.length → t'.length = k →
        PeginRefines mem p
          (if rest.length - k = 0 then .ok (mem.write p t')
            else peginLoop c script 0 (rest.drop k) (mem.write p t') (p + k) false)
          ((t' :: ·) <$> peginRewrite (peginTweak c · script) (scriptTokens (rest.drop k))) := by
      intro t' k hk hkr ht
      split
      · rw [List.drop_eq_nil_of_le (by omega), scriptTokens_nil]
        simp [PeginRefines, peginRewrite]
      · subst ht
        exact PeginRefines.cons (ih _ (by simp only [List.length_drop]; omega) _ _ _ le_rfl
          (by rw [ne_eq, List.drop_eq_nil_iff]; omega))
    rw [scriptTokens_of_ne_nil hne, peginLoop]
    split
    · -- a push that decodes: one token of header and payload, never `OP_ELSE`
      rename_i sizeOut hsize
      split
      · exact absurd ‹_› (scriptGetPushOpcodeSizeFromBytes_ne_error hsize _)
      rename_i opcodeSize hop
      have hle := getPushSize_le_length hop hsize
      rw [tokenLength_of_ok hop hsize, peginRewrite, if_neg (take_ne_opElse hop hsize),
        tokenKey_push hop hsize]
      dsimp only
      rw [if_neg (by omega)]
      by_cases hkey : opcodeSize = 1 ∧ sizeOut = ecPublicKeyLen
      · -- a direct push of 33 bytes: the loop and the rewrite tweak the same key
        rw [if_pos ⟨hkey.1, hkey.2, rfl⟩, if_pos hkey]
        dsimp only
        have hpk := @peginTweakKey_refines c ((rest.drop 1).take ecPublicKeyLen) script mem p
          rest.length (by simp only [ecPublicKeyLen] at hkey; omega)
        cases htw : peginTweak c ((rest.drop 1).take ecPublicKeyLen) script with
        | none =>
          rw [htw] at hpk
          obtain ⟨m, hst⟩ := peginRefines_none.mp hpk
          rw [hst]
          rfl
        | some ser =>
          rw [htw] at hpk
          rw [peginRefines_some.mp hpk, List.flatten_singleton]
          refine hnext _ _ (by omega) (by omega) ?_
          rw [List.length_cons, length_of_peginTweak htw, hkey.1, hkey.2]
      · -- any other push is copied whole
        rw [if_neg (fun h => hkey ⟨h.1, h.2.1⟩), if_neg hkey]
        exact hnext _ _ (by omega) (by omega) (List.length_take_of_le (by omega))
    · -- no push decodes: the token is the first byte alone
      rename_i e hsize
      rw [tokenLength_of_error hsize, take_one_eq_getD hne]
      dsimp only
      by_cases he : rest.getD 0 0 = opElse
      · -- `OP_ELSE`: the rest is copied
        have hrest : [opElse] ++ rest.drop 1 = rest := by
          rw [← he, ← take_one_eq_getD hne, List.take_append_drop]
        rw [he, peginRewrite, if_pos rfl,
          if_pos (show opElse = opElse ∧ (0 : UInt32) = 0 from ⟨rfl, rfl⟩)]
        have hloop : (if rest.length - 1 = 0 then .ok (mem.write p [opElse])
            else peginLoop c script 0 (rest.drop 1) (mem.write p [opElse]) (p + 1) true) =
            (.ok (mem.write p rest) : Except (Ret × Bytes) Bytes) := by
          split
          · rw [← hrest, List.drop_eq_nil_of_le (by omega), List.append_nil]
          · rw [peginLoop_found _ _ _ _ le_rfl (by rw [ne_eq, List.drop_eq_nil_iff]; omega)]
            have hw := @Bytes.write_write mem [opElse] (rest.drop 1) p
            rw [hrest] at hw
            rw [← hw]; rfl
        rw [hloop]
        simp only [PeginRefines, List.flatten_cons, flatten_scriptTokens, hrest]
      · -- any other opcode is copied
        have hk : tokenKey [rest.getD 0 0] = none := by simp [tokenKey, ecPublicKeyLen]
        rw [peginRewrite, if_neg (show [rest.getD 0 0] ≠ [opElse] by simpa using he), hk,
          if_neg (show ¬(rest.getD 0 0 = opElse ∧ (0 : UInt32) = 0) from fun h => he h.1)]
        exact hnext [rest.getD 0 0] 1 le_rfl (List.length_pos.mpr hne) rfl

/-! ### The tokens of a multisig script -/

/-- An opcode above `OP_PUSHDATA4` starts no push. -/
theorem readPushHeader_opcode {b : UInt8} (hb : 78 < b.toNat) (rest : Bytes) :
    readPushHeader (b :: rest) = none := by
  have ne : ∀ {op : UInt8}, op.toNat ≤ 78 → b ≠ op := fun h he => by rw [he] at hb; omega
  simp [readPushHeader, show ¬b.toNat < 76 by omega, ne (show opPushdata1.toNat ≤ 78 by decide),
    ne (show opPushdata2.toNat ≤ 78 by decide), ne (show opPushdata4.toNat ≤ 78 by decide)]

theorem tokenLength_opcode {b : UInt8} (hb : 78 < b.toNat) (rest : Bytes) :
    tokenLength (b :: rest) = 1 :=
  tokenLength_of_error (e := .einval) (by simp [getPushSize, readPushHeader_opcode hb])

/-- A token at the front of a script is the walk's first token. -/
theorem scriptTokens_append {t rest : Bytes} (ht : t ≠ []) (hl : tokenLength (t ++ rest) = t.length) :
    scriptTokens (t ++ rest) = t :: scriptTokens rest := by
  rw [scriptTokens_of_ne_nil (by simp [ht]), hl, List.take_left, List.drop_left]

theorem scriptTokens_opcode {b : UInt8} (hb : 78 < b.toNat) (rest : Bytes) :
    scriptTokens (b :: rest) = [b] :: scriptTokens rest :=
  scriptTokens_append (t := [b]) (List.cons_ne_nil _ _) (tokenLength_opcode hb rest)

/-- A key push is one token. -/
theorem tokenLength_keyPush {e : Bytes} (he : IsKeyPush e) (rest : Bytes) :
    tokenLength (e ++ rest) = e.length := by
  obtain ⟨f, payload, hd, -, rfl⟩ := he
  rw [tokenLength_of_ok (getPushSize_header hd rfl rest true) (getPushSize_header hd rfl rest false)]
  simp [Nat.add_comm]

theorem scriptTokens_keyPushes {es : List Bytes} (h : ∀ e ∈ es, IsKeyPush e) (rest : Bytes) :
    scriptTokens (es.flatten ++ rest) = es ++ scriptTokens rest := by
  induction es with
  | nil => rfl
  | cons e es ih =>
    have he := h e (List.mem_cons_self _ _)
    have hne : e ≠ [] := List.ne_nil_of_length_pos (by have := length_keyPush he; omega)
    rw [List.flatten_cons, List.append_assoc, scriptTokens_append hne (tokenLength_keyPush he _),
      ih fun e' h' => h e' (List.mem_cons_of_mem _ h'), List.cons_append]

/-- **The tokens of a multisig script.** `OP_m`, each key push, `OP_n` and `OP_CHECKMULTISIG`. -/
theorem scriptTokens_multisig {m : Nat} {es : List Bytes} (hm1 : 1 ≤ m) (hm16 : m ≤ 16)
    (hn1 : 1 ≤ es.length) (hn16 : es.length ≤ 16) (h : ∀ e ∈ es, IsKeyPush e) :
    scriptTokens ([valueToOpN m] ++ es.flatten ++ [valueToOpN es.length, opCheckmultisig]) =
      [valueToOpN m] :: (es ++ [[valueToOpN es.length], [opCheckmultisig]]) := by
  rw [List.singleton_append, List.cons_append,
    scriptTokens_opcode (by rw [valueToOpN_toNat hm1 hm16]; omega),
    scriptTokens_keyPushes h, scriptTokens_opcode (by rw [valueToOpN_toNat hn1 hn16]; omega),
    scriptTokens_opcode (by decide), scriptTokens_nil]

/-! ### The function -/

theorem wallyElementsPeginContractScriptFromBytes_einval {c : Collab} {r script : Bytes}
    {flags : UInt32} {out : Bytes} (h : script = [] ∨ flags ≠ 0) :
    wallyElementsPeginContractScriptFromBytes c r script flags out = ⟨.einval, 0, out⟩ := by
  rw [wallyElementsPeginContractScriptFromBytes, if_pos (by tauto)]

section Valid

variable {c : Collab} {r script out : Bytes} (hr : r ≠ []) (hs : script ≠ [])
  (hlen : out.length = r.length)
include hr hs hlen

theorem wallyElementsPeginContractScriptFromBytes_of_ok {mem : Bytes}
    (h : peginLoop c script 0 r out 0 false = .ok mem) :
    wallyElementsPeginContractScriptFromBytes c r script 0 out = ⟨.ok, r.length, mem⟩ := by
  rw [wallyElementsPeginContractScriptFromBytes, if_neg (by simp [hr, hs, hlen]), h]

theorem wallyElementsPeginContractScriptFromBytes_of_error {e : Ret} {mem : Bytes}
    (h : peginLoop c script 0 r out 0 false = .error (e, mem)) :
    wallyElementsPeginContractScriptFromBytes c r script 0 out = ⟨e, 0, mem⟩ := by
  rw [wallyElementsPeginContractScriptFromBytes, if_neg (by simp [hr, hs, hlen]), h]

end Valid

/-- **The peg-in contract rewrite.** On every redeem script `r`, not empty, every contract
`script`, every `flags` and a buffer of `r`'s length, the function returns `WALLY_EINVAL` exactly
on an empty contract or nonzero flags, and otherwise `WALLY_ERROR` exactly when the tweak fails
on one of the key payloads: a collaborator call fails, or the sanity check on their results.
When it returns `WALLY_OK`, it reports `r`'s length, and the buffer has `r`'s length and holds
`r` at every offset outside the key payloads; each payload holds the compressed serialisation of
the payload's key tweaked by `HMAC-SHA256(key, script)`. -/
theorem pegin_contract_rewrite (c : Collab) {r : Bytes} (hr : r ≠ []) (script : Bytes)
    (flags : UInt32) {out : Bytes} (hlen : out.length = r.length) :
    let o := wallyElementsPeginContractScriptFromBytes c r script flags out
    o.ret = (if script = [] ∨ flags ≠ 0 then .einval
      else if ∃ off ∈ keyOffsets (scriptTokens r),
          peginTweak c ((r.drop off).take ecPublicKeyLen) script = none then .error
      else .ok) ∧
    (o.ret = .ok → o.written = r.length ∧ o.mem.length = r.length ∧
      (∀ i, (∀ off ∈ keyOffsets (scriptTokens r), i < off ∨ off + ecPublicKeyLen ≤ i) →
        o.mem.getD i 0 = r.getD i 0) ∧
      ∀ off ∈ keyOffsets (scriptTokens r), ∃ pubKey pubKeyTweaked,
        c.pubkeyParse ((r.drop off).take ecPublicKeyLen) = some pubKey ∧
        c.pubkeyTweakAdd pubKey (c.hmacSha256 ((r.drop off).take ecPublicKeyLen) script) =
          some pubKeyTweaked ∧
        c.pubkeySerialize pubKeyTweaked = some ((o.mem.drop off).take ecPublicKeyLen)) := by
  intro o
  have ho : o = wallyElementsPeginContractScriptFromBytes c r script flags out := rfl
  clear_value o
  by_cases hbad : script = [] ∨ flags ≠ 0
  · -- the argument check
    rw [ho, wallyElementsPeginContractScriptFromBytes_einval hbad, if_pos hbad]
    exact ⟨rfl, fun h => by cases h⟩
  rw [if_neg hbad]
  simp only [not_or, ne_eq, not_not] at hbad
  obtain ⟨hs, rfl⟩ := hbad
  have htw : ∀ key ser, peginTweak c key script = some ser → ser.length = ecPublicKeyLen :=
    fun _ _ => length_of_peginTweak
  -- the loop from offset 0 refines the rewrite of the whole script
  have href := @peginLoop_refines c script _ r out 0 le_rfl hr
  cases hrw : peginRewrite (peginTweak c · script) (scriptTokens r) with
  | none =>
    -- a key whose tweak fails, and the loop's `WALLY_ERROR`
    obtain ⟨off, hoff, hnone⟩ := peginRewrite_eq_none hrw
    rw [flatten_scriptTokens] at hnone
    obtain ⟨m, hl⟩ := peginRefines_none.mp (hrw ▸ href)
    rw [wallyElementsPeginContractScriptFromBytes_of_error hr hs hlen hl] at ho
    subst ho
    exact ⟨by rw [if_pos ⟨off, hoff, hnone⟩], fun h => by cases h⟩
  | some ts' =>
    -- every tweak succeeds: the rewritten script, stored over the whole buffer
    have hpay := peginRewrite_payload htw hrw
    have hget := peginRewrite_getD htw hrw
    have hlen' := length_peginRewrite htw hrw
    rw [flatten_scriptTokens] at hpay hget hlen'
    have hl := peginRefines_some.mp (hrw ▸ href)
    rw [Bytes.write_zero, List.drop_eq_nil_of_le (by omega), List.append_nil] at hl
    rw [wallyElementsPeginContractScriptFromBytes_of_ok hr hs hlen hl] at ho
    subst ho
    have hall : ¬∃ off ∈ keyOffsets (scriptTokens r),
        peginTweak c ((r.drop off).take ecPublicKeyLen) script = none := by
      rintro ⟨off, hoff, hnone⟩
      rw [hpay off hoff] at hnone
      cases hnone
    exact ⟨by rw [if_neg hall],
      fun _ => ⟨rfl, hlen', hget, fun off hoff => peginTweak_eq_some (hpay off hoff)⟩⟩

/-- The theorem on a 1-of-1 multisig script with the contract `[1]`, under collaborators whose
tweak passes the sanity check: the one key payload, at offset 2, is rewritten and the function
returns `WALLY_OK`. -/
theorem pegin_contract_rewrite_multisig :
    multisigImage 1 [List.replicate 33 3] ≠ [] ∧
    (List.replicate 37 0 : Bytes).length = (multisigImage 1 [List.replicate 33 3]).length ∧
    keyOffsets (scriptTokens (multisigImage 1 [List.replicate 33 3])) = [2] ∧
    (wallyElementsPeginContractScriptFromBytes tweakCollab (multisigImage 1 [List.replicate 33 3])
      [1] 0 (List.replicate 37 0)).ret = .ok ∧
    let r := multisigImage 1 [List.replicate 33 3]
    let o := wallyElementsPeginContractScriptFromBytes tweakCollab r [1] 0 (List.replicate 37 0)
    o.ret = (if [(1 : UInt8)] = [] ∨ (0 : UInt32) ≠ 0 then .einval
      else if ∃ off ∈ keyOffsets (scriptTokens r),
          peginTweak tweakCollab ((r.drop off).take ecPublicKeyLen) [1] = none then .error
      else .ok) ∧
    (o.ret = .ok → o.written = r.length ∧ o.mem.length = r.length ∧
      (∀ i, (∀ off ∈ keyOffsets (scriptTokens r), i < off ∨ off + ecPublicKeyLen ≤ i) →
        o.mem.getD i 0 = r.getD i 0) ∧
      ∀ off ∈ keyOffsets (scriptTokens r), ∃ pubKey pubKeyTweaked,
        tweakCollab.pubkeyParse ((r.drop off).take ecPublicKeyLen) = some pubKey ∧
        tweakCollab.pubkeyTweakAdd pubKey
          (tweakCollab.hmacSha256 ((r.drop off).take ecPublicKeyLen) [1]) = some pubKeyTweaked ∧
        tweakCollab.pubkeySerialize pubKeyTweaked = some ((o.mem.drop off).take ecPublicKeyLen)) := by
  have hr : multisigImage 1 [List.replicate 33 3] ≠ [] := by simp [multisigImage]
  have hlen : (List.replicate 37 0 : Bytes).length =
      (multisigImage 1 [List.replicate 33 3]).length := rfl
  have hk : keyOffsets (scriptTokens (multisigImage 1 [List.replicate 33 3])) = [2] := by
    rw [show multisigImage 1 [List.replicate 33 3] =
        [valueToOpN 1] ++ [UInt8.ofNat ecPublicKeyLen :: List.replicate 33 3].flatten ++
          [valueToOpN [UInt8.ofNat ecPublicKeyLen :: List.replicate 33 3].length, opCheckmultisig]
        from rfl, scriptTokens_multisig (by decide) (by decide) (by decide) (by decide)
        fun e he => List.mem_singleton.mp he ▸ isKeyPush_key (by decide)]
    decide
  have h := pegin_contract_rewrite tweakCollab hr [1] 0 hlen
  refine ⟨hr, hlen, hk, ?_, h⟩
  rw [h.1, hk]
  decide

/-- With an empty contract the function fails with `WALLY_EINVAL` on a redeem script that it
copies whole with the contract `[1]`. The script holds no key, so no collaborator is called: the
failure comes from the argument check. -/
theorem pegin_empty_contract :
    wallyElementsPeginContractScriptFromBytes sampleCollab [opElse] [] 0 [0] = ⟨.einval, 0, [0]⟩ ∧
    wallyElementsPeginContractScriptFromBytes sampleCollab [opElse] [1] 0 [0] =
      ⟨.ok, 1, [opElse]⟩ := by
  refine ⟨wallyElementsPeginContractScriptFromBytes_einval (.inl rfl),
    @wallyElementsPeginContractScriptFromBytes_of_ok sampleCollab [opElse] [1] [0] (by decide)
      (by decide) rfl _ ?_⟩
  rw [peginLoop]
  rfl

end WallyScript
