import WallyScript.Basic

/-!
# Pushes

The "push N bytes" opcode (`script.c`, lines 62–116 and 895–961). A push is a header declaring
a payload length, in one of four forms, `PushForm`: the length itself as one byte below 76, or
`OP_PUSHDATA1`, `OP_PUSHDATA2` or `OP_PUSHDATA4` followed by the length in 1, 2 or 4
little-endian bytes.

`getPushSize` is the decoder every walk over a script goes through. It reads the header
(`readPushHeader`) and then checks that the payload fits in the buffer; the check adds two
`size_t` values, so the function takes the width `w` of `size_t` and sums modulo `2 ^ w`. The
rest of the model is the 64-bit build and calls it at `w = 64`.

`wallyScriptPushFromBytes` is the encoder: it optionally replaces the payload by its HASH160 or
SHA256, and stores the shortest header (`pushOpcode`) and the payload when the buffer holds them.

* `readPushHeader_eq_some` inverts the header read: a header read is exactly a `PushForm` header
  for a length that form can declare.
* `getPushSize_eq_ok` is the decoder's spec, and `getPushSize_header` decodes any header
  followed by its payload; at `w = 64` the payload always ends inside the buffer
  (`getPushSize_le_length`).
* `wallyScriptPushFromBytes_eq` is the encoder's spec: a size answer, and when the buffer holds
  it, `pushScript` of the payload stored at the pointer.
* `getPushSize_pushScript` and `pushScript_of_getPushSize` are the round trip below `2 ^ 32`
  payload bytes. From `2 ^ 32` on, the `cpu_to_le32` of the encoder truncates the length field
  (`getPushSize_pushScript_large`, `push_length_truncated`).
* On a 32-bit `size_t` the decoder's bound check wraps (`getPushSize_wraps`), so a successful
  decode no longer bounds the push by the buffer.
-/

namespace WallyScript

/-! ### Flags -/

/-- `WALLY_SCRIPT_HASH160`. -/
def wallyScriptHash160 : UInt32 := 0x1

/-- `WALLY_SCRIPT_SHA256`. -/
def wallyScriptSha256 : UInt32 := 0x2

/-- `WALLY_SCRIPT_AS_PUSH`. -/
def wallyScriptAsPush : UInt32 := 0x4

/-- `WALLY_SCRIPT_MULTISIG_SORTED`. -/
def wallyScriptMultisigSorted : UInt32 := 0x8

/-- `ALL_SCRIPT_HASH_FLAGS`. -/
def allScriptHashFlags : UInt32 := wallyScriptHash160 ||| wallyScriptSha256

/-- `script_flags_ok`: no flag outside the hash flags and `extra_flags`, and not both hashes. -/
def scriptFlagsOk (flags extraFlags : UInt32) : Bool :=
  !((flags &&& ~~~(allScriptHashFlags ||| extraFlags)) != 0 ||
    (flags &&& allScriptHashFlags) == allScriptHashFlags)

/-- A flag word with no bit set above the low `k` bits is below `2 ^ k`. -/
theorem toNat_lt_of_and_not {x : UInt32} {k : Nat} (h : x &&& ~~~(UInt32.ofNat (2 ^ k - 1)) = 0) :
    x.toNat < 2 ^ k := by
  have hb : ∀ i, (x.toBitVec &&& ~~~(BitVec.ofNat 32 (2 ^ k - 1))).getLsbD i = false := fun i => by
    rw [show x.toBitVec &&& ~~~(BitVec.ofNat 32 (2 ^ k - 1)) =
      (x &&& ~~~(UInt32.ofNat (2 ^ k - 1))).toBitVec from rfl, h]; simp
  refine Nat.lt_pow_two_of_testBit _ fun i hi => ?_
  have := hb i
  simp only [BitVec.getLsbD_and, BitVec.getLsbD_not, BitVec.getLsbD_ofNat,
    Nat.testBit_two_pow_sub_one] at this
  show x.toBitVec.getLsbD i = false
  by_cases h32 : i < 32
  · simpa [h32, show ¬i < k by omega] using this
  · exact BitVec.getLsbD_ge _ _ (by omega)

theorem eq_ofNat_of_toNat_lt {x : UInt32} {n : Nat} (h : x.toNat < n) :
    ∃ m < n, x = UInt32.ofNat m :=
  ⟨x.toNat, h, UInt32.toNat.inj (by simp [UInt32.toNat_ofNat_of_lt (UInt32.toNat_lt_size x)])⟩

/-- The flags `wally_scriptpubkey_p2sh_from_bytes` lets through. -/
theorem flags_of_and_not_hash160 {flags : UInt32} (h : flags &&& ~~~wallyScriptHash160 = 0) :
    flags = 0 ∨ flags = wallyScriptHash160 := by
  obtain ⟨m, hm, rfl⟩ := eq_ofNat_of_toNat_lt (toNat_lt_of_and_not (k := 1) h)
  interval_cases m <;> decide

/-- Clearing `WALLY_SCRIPT_AS_PUSH` from flags valid with it gives flags valid without it. -/
theorem scriptFlagsOk_asPush {flags : UInt32} (h : scriptFlagsOk flags wallyScriptAsPush = true) :
    scriptFlagsOk (flags &&& ~~~wallyScriptAsPush) 0 = true := by
  have h7 : flags &&& ~~~(UInt32.ofNat (2 ^ 3 - 1)) = 0 := by
    simp only [scriptFlagsOk, Bool.not_eq_true', Bool.or_eq_false_iff, bne_eq_false_iff_eq] at h
    exact h.1
  obtain ⟨m, hm, rfl⟩ := eq_ofNat_of_toNat_lt (toNat_lt_of_and_not h7)
  revert h
  interval_cases m <;> decide

/-! ### Decoding -/

/-- `calc_push_opcode_size`. -/
def calcPushOpcodeSize (n : Nat) : Nat :=
  if n < 76 then 1 else if n < 256 then 2 else if n < 65536 then 3 else 5

/-- `script_get_push_size`. -/
def scriptGetPushSize (n : Nat) : Nat :=
  calcPushOpcodeSize n + n

/-- The opcode length and `*size_out` that `get_push_size` reads at `bytes[0]`, before its last
check; `none` where it returns `WALLY_EINVAL` on the header. -/
def readPushHeader : Bytes → Option (Nat × Nat)
  | [] => none
  | op :: rest =>
    if op.toNat < 76 then some (1, op.toNat)
    else if op = opPushdata1 then
      if rest.length + 1 < 2 then none else some (2, (rest.getD 0 0).toNat)
    else if op = opPushdata2 then
      if rest.length + 1 < 3 then none else some (3, leValue (rest.take 2))
    else if op = opPushdata4 then
      if rest.length + 1 < 5 then none else some (5, leValue (rest.take 4))
    else none

/-- `get_push_size` on a `w`-bit `size_t`: the opcode length or the payload length, after the
check `bytes_len < opcode_len + *size_out`. -/
def getPushSize (w : Nat) (bytes : Bytes) (getOpcodeSize : Bool) : Except Ret Nat :=
  match readPushHeader bytes with
  | none => .error .einval
  | some (opcodeLen, sizeOut) =>
    if bytes.length < (opcodeLen + sizeOut) % 2 ^ w then .error .einval
    else .ok (if getOpcodeSize then opcodeLen else sizeOut)

/-- `script_get_push_size_from_bytes`. -/
def scriptGetPushSizeFromBytes (w : Nat) (bytes : Bytes) : Except Ret Nat :=
  getPushSize w bytes false

/-- `script_get_push_opcode_size_from_bytes`. -/
def scriptGetPushOpcodeSizeFromBytes (w : Nat) (bytes : Bytes) : Except Ret Nat :=
  getPushSize w bytes true

/-! ### Encoding -/

/-- The header `wally_script_push_from_bytes` stores for a payload of `n` bytes. -/
def pushOpcode (n : Nat) : Bytes :=
  if n < 76 then [UInt8.ofNat n]
  else if n < 256 then [opPushdata1, UInt8.ofNat n]
  else if n < 65536 then opPushdata2 :: leBytes 2 n
  else opPushdata4 :: leBytes 4 n

/-- The payload `wally_script_push_from_bytes` pushes: the bytes, or their HASH160 or SHA256. -/
def pushPayload (c : Collab) (bytes : Bytes) (flags : UInt32) : Bytes :=
  if flags &&& wallyScriptHash160 ≠ 0 then c.hash160 bytes
  else if flags &&& wallyScriptSha256 ≠ 0 then c.sha256 bytes
  else bytes

/-- `wally_script_push_from_bytes`, writing through the pointer `bytes_out = mem + p` with the
capacity `len` its caller passes. -/
def wallyScriptPushFromBytes (c : Collab) (bytes : Bytes) (flags : UInt32) (mem : Bytes)
    (p len : Nat) : Outcome :=
  if !scriptFlagsOk flags 0 || len = 0 then ⟨.einval, 0, mem⟩
  else
    let bytes := pushPayload c bytes flags
    let opcodeLen := calcPushOpcodeSize bytes.length
    let written := bytes.length + opcodeLen
    if len < written then ⟨.ok, written, mem⟩
    else ⟨.ok, written, (mem.write p (pushOpcode bytes.length)).write (p + opcodeLen) bytes⟩

/-! ### Push forms -/

/-- The four forms of a push header. -/
inductive PushForm
  | direct
  | pushdata1
  | pushdata2
  | pushdata4
  deriving DecidableEq, Repr

namespace PushForm

/-- The header of form `f` declaring `n` bytes. -/
def header : PushForm → Nat → Bytes
  | direct, n => [UInt8.ofNat n]
  | pushdata1, n => [opPushdata1, UInt8.ofNat n]
  | pushdata2, n => opPushdata2 :: leBytes 2 n
  | pushdata4, n => opPushdata4 :: leBytes 4 n

/-- The header's length. -/
def size : PushForm → Nat
  | direct => 1
  | pushdata1 => 2
  | pushdata2 => 3
  | pushdata4 => 5

/-- The lengths form `f` can declare. -/
def Declares : PushForm → Nat → Prop
  | direct, n => n < 76
  | pushdata1, n => n < 256
  | pushdata2, n => n < 65536
  | pushdata4, n => n < 2 ^ 32

instance (f : PushForm) (n : Nat) : Decidable (f.Declares n) := by
  cases f <;> unfold Declares <;> infer_instance

/-- The form `wally_script_push_from_bytes` uses for `n` bytes: the shortest. -/
def minimal (n : Nat) : PushForm :=
  if n < 76 then direct else if n < 256 then pushdata1 else if n < 65536 then pushdata2
  else pushdata4

@[simp] theorem length_header (f : PushForm) (n : Nat) : (f.header n).length = f.size := by
  cases f <;> simp [header, size]

theorem declares_lt {f : PushForm} {n : Nat} (h : f.Declares n) : n < 2 ^ 32 := by
  cases f <;> simp only [Declares] at h <;> omega

theorem size_pos (f : PushForm) : 1 ≤ f.size := by cases f <;> decide

theorem size_le (f : PushForm) : f.size ≤ 5 := by cases f <;> decide

end PushForm

theorem pushOpcode_eq (n : Nat) : pushOpcode n = (PushForm.minimal n).header n := by
  unfold pushOpcode PushForm.minimal; split_ifs <;> rfl

theorem calcPushOpcodeSize_eq (n : Nat) : calcPushOpcodeSize n = (PushForm.minimal n).size := by
  unfold calcPushOpcodeSize PushForm.minimal; split_ifs <;> rfl

theorem length_pushOpcode (n : Nat) : (pushOpcode n).length = calcPushOpcodeSize n := by
  rw [pushOpcode_eq, calcPushOpcodeSize_eq, PushForm.length_header]

/-- The minimal form declares every length below `2 ^ 32`. -/
theorem declares_minimal {n : Nat} (h : n < 2 ^ 32) : (PushForm.minimal n).Declares n := by
  unfold PushForm.minimal; split_ifs <;> simp only [PushForm.Declares] <;> omega


/-! ### The decoder -/

/-- A header followed by anything reads back as its length and declared length. -/
theorem readPushHeader_header {f : PushForm} {n : Nat} (hn : f.Declares n) (rest : Bytes) :
    readPushHeader (f.header n ++ rest) = some (f.size, n) := by
  cases f <;> simp only [PushForm.Declares] at hn
  case direct =>
    simp [readPushHeader, PushForm.header, PushForm.size, Nat.mod_eq_of_lt (by omega : n < 256), hn]
  case pushdata1 =>
    simp [readPushHeader, PushForm.header, PushForm.size, opPushdata1, Nat.mod_eq_of_lt hn]
  case pushdata2 =>
    simp [readPushHeader, PushForm.header, PushForm.size, opPushdata1, opPushdata2,
      Nat.mod_eq_of_lt hn]
  case pushdata4 =>
    simp [readPushHeader, PushForm.header, PushForm.size, opPushdata1, opPushdata2, opPushdata4,
      Nat.mod_eq_of_lt (by omega : n < 4294967296)]

/-- **Reading a header.** `get_push_size` reads `(k, n)` at the front of `b` exactly when `b`
starts with a header of `k` bytes declaring `n`. -/
theorem readPushHeader_eq_some {b : Bytes} {k n : Nat} :
    readPushHeader b = some (k, n) ↔
      ∃ f : PushForm, f.size = k ∧ f.Declares n ∧ b = f.header n ++ b.drop k := by
  refine ⟨fun h => ?_, fun ⟨f, hk, hn, hb⟩ => by rw [hb, readPushHeader_header hn, hk]⟩
  obtain _ | ⟨op, rest⟩ := b
  · cases h
  simp only [readPushHeader] at h
  split_ifs at h with h1 h2 h3 h4 h5 h6 h7 <;> cases h
  · exact ⟨.direct, rfl, h1, by simp [PushForm.header]⟩
  · obtain _ | ⟨x, rest⟩ := rest
    · simp at h3
    exact ⟨.pushdata1, rfl, by simp [PushForm.Declares, byte_toNat_lt], by
      simp [PushForm.header, h2]⟩
  · have hl : (rest.take 2).length = 2 := by simp; omega
    have := leValue_lt (rest.take 2)
    refine ⟨.pushdata2, rfl, by rw [hl] at this; exact this, ?_⟩
    have hb := leBytes_leValue (rest.take 2)
    rw [hl] at hb
    simp [PushForm.header, h4, hb, PushForm.size]
  · have hl : (rest.take 4).length = 4 := by simp; omega
    have := leValue_lt (rest.take 4)
    refine ⟨.pushdata4, rfl, by rw [hl] at this; exact this, ?_⟩
    have hb := leBytes_leValue (rest.take 4)
    rw [hl] at hb
    simp [PushForm.header, h6, hb, PushForm.size]

/-- **The decoder.** `get_push_size` succeeds exactly on a header whose declared payload fits the
buffer by its own `size_t` sum, and answers the header's length or the payload's. -/
theorem getPushSize_eq_ok {w : Nat} {b : Bytes} {g : Bool} {v : Nat} :
    getPushSize w b g = .ok v ↔
      ∃ k n, readPushHeader b = some (k, n) ∧ (k + n) % 2 ^ w ≤ b.length ∧
        v = if g then k else n := by
  unfold getPushSize
  rcases readPushHeader b with _ | ⟨k, n⟩
  · simp
  · by_cases hlt : b.length < (k + n) % 2 ^ w
    · simp [hlt]
    · simp only [hlt, if_false, Except.ok.injEq, Option.some.injEq, Prod.mk.injEq]
      constructor
      · rintro rfl; exact ⟨k, n, ⟨rfl, rfl⟩, by omega, rfl⟩
      · rintro ⟨_, _, ⟨rfl, rfl⟩, -, rfl⟩; rfl

/-- The decoder fails only with `WALLY_EINVAL`. -/
theorem getPushSize_error {w : Nat} {b : Bytes} {g : Bool} {e : Ret}
    (h : getPushSize w b g = .error e) : e = .einval := by
  unfold getPushSize at h
  split at h
  · cases h; rfl
  · split_ifs at h
    cases h; rfl

/-- On the 64-bit build, a header followed by its payload decodes to the two lengths, whatever
follows. -/
theorem getPushSize_header {f : PushForm} {n : Nat} (hn : f.Declares n) {payload : Bytes}
    (hp : payload.length = n) (rest : Bytes) (g : Bool) :
    getPushSize 64 (f.header n ++ payload ++ rest) g = .ok (if g then f.size else n) := by
  have h32 := PushForm.declares_lt hn
  have h5 := f.size_le
  rw [getPushSize_eq_ok]
  refine ⟨f.size, n, by rw [List.append_assoc, readPushHeader_header hn], ?_, rfl⟩
  rw [Nat.mod_eq_of_lt (by omega)]; simp; omega

/-- **No overrun on the 64-bit build.** Whenever `get_push_size` succeeds, the header and the
payload it declares end inside the buffer, and the header takes at least one byte. -/
theorem getPushSize_le_length {b : Bytes} {k n : Nat} (hk : getPushSize 64 b true = .ok k)
    (hn : getPushSize 64 b false = .ok n) : 1 ≤ k ∧ k + n ≤ b.length := by
  obtain ⟨k', n', hr, hle, rfl⟩ := getPushSize_eq_ok.mp hk
  obtain ⟨k'', n'', hr', -, rfl⟩ := getPushSize_eq_ok.mp hn
  rw [hr] at hr'; cases hr'
  obtain ⟨f, rfl, hd, -⟩ := readPushHeader_eq_some.mp hr
  have := PushForm.declares_lt hd
  have := f.size_le
  simp only [if_true, if_false] at *
  rw [Nat.mod_eq_of_lt (by omega)] at hle
  exact ⟨f.size_pos, hle⟩

/-- On a 32-bit `size_t` the bound check of `get_push_size` wraps: the five bytes
`4e fb ff ff ff` pass it, declaring `0xfffffffb` payload bytes behind a 5-byte header. -/
theorem getPushSize_wraps :
    scriptGetPushOpcodeSizeFromBytes 32 [0x4e, 0xfb, 0xff, 0xff, 0xff] = .ok 5 ∧
      scriptGetPushSizeFromBytes 32 [0x4e, 0xfb, 0xff, 0xff, 0xff] = .ok 0xfffffffb ∧
      [0x4e, 0xfb, 0xff, 0xff, 0xff].length < 5 + 0xfffffffb :=
  ⟨rfl, rfl, by decide⟩

/-! ### The encoder -/

/-- The bytes a push of `q` takes: its shortest header, then `q`. -/
def pushScript (q : Bytes) : Bytes :=
  pushOpcode q.length ++ q

@[simp] theorem length_pushScript (q : Bytes) :
    (pushScript q).length = scriptGetPushSize q.length := by
  simp [pushScript, length_pushOpcode, scriptGetPushSize]

/-- **The encoder.** With valid flags and a nonzero capacity, `wally_script_push_from_bytes`
keeps the sizing contract with the push of its payload as image. -/
theorem wallyScriptPushFromBytes_eq {c : Collab} {bytes : Bytes} {flags : UInt32} {mem : Bytes}
    {p len : Nat} (hf : scriptFlagsOk flags 0 = true) (hl : len ≠ 0) :
    wallyScriptPushFromBytes c bytes flags mem p len =
      .sizedAt (pushScript (pushPayload c bytes flags)) mem p len := by
  have h := length_pushOpcode (pushPayload c bytes flags).length
  simp only [wallyScriptPushFromBytes, hf, hl, Outcome.sizedAt, length_pushScript,
    scriptGetPushSize]
  rw [← h, Bytes.write_write, Nat.add_comm]
  split_ifs <;> simp_all [pushScript]

/-- A push that fits, stored at `q` right after a store of `pre` at `p`: one store of `pre` and
the push. -/
theorem wallyScriptPushFromBytes_after {c : Collab} {bytes : Bytes} {flags : UInt32}
    {mem pre : Bytes} {p q len : Nat} (hf : scriptFlagsOk flags 0 = true)
    (hlen : (pushScript (pushPayload c bytes flags)).length ≤ len) (hq : p + pre.length = q) :
    wallyScriptPushFromBytes c bytes flags (mem.write p pre) q len =
      ⟨.ok, (pushScript (pushPayload c bytes flags)).length,
        mem.write p (pre ++ pushScript (pushPayload c bytes flags))⟩ := by
  have : 1 ≤ (pushScript (pushPayload c bytes flags)).length := by
    simp [scriptGetPushSize, calcPushOpcodeSize]; split_ifs <;> omega
  rw [wallyScriptPushFromBytes_eq hf (by omega), Outcome.sizedAt, if_neg (by omega), ← hq,
    Bytes.write_write]

/-- The encoder fails exactly on bad flags or a zero capacity, storing nothing. -/
theorem wallyScriptPushFromBytes_einval {c : Collab} {bytes : Bytes} {flags : UInt32}
    {mem : Bytes} {p len : Nat} (h : scriptFlagsOk flags 0 = false ∨ len = 0) :
    wallyScriptPushFromBytes c bytes flags mem p len = ⟨.einval, 0, mem⟩ := by
  rcases h with h | h <;> simp [wallyScriptPushFromBytes, h]

/-! ### Round trip -/

/-- The decoder reads back every push the encoder can store in full. -/
theorem getPushSize_pushScript {q : Bytes} (hq : q.length < 2 ^ 32) (rest : Bytes) (g : Bool) :
    getPushSize 64 (pushScript q ++ rest) g =
      .ok (if g then calcPushOpcodeSize q.length else q.length) := by
  rw [pushScript, pushOpcode_eq, calcPushOpcodeSize_eq]
  exact getPushSize_header (declares_minimal hq) rfl rest g

/-- Re-encoding the payload behind a minimal header gives back the push. -/
theorem pushScript_of_getPushSize {b : Bytes} {k n : Nat} (hk : getPushSize 64 b true = .ok k)
    (hn : getPushSize 64 b false = .ok n) (hmin : b.take k = pushOpcode n) :
    pushScript ((b.drop k).take n) = b.take (k + n) := by
  have hle := (getPushSize_le_length hk hn).2
  have hlen : ((b.drop k).take n).length = n := by simp; omega
  rw [pushScript, hlen, ← hmin, List.take_add]

theorem leBytes_mod (k n : Nat) : leBytes k (n % 256 ^ k) = leBytes k n := by
  simpa using leBytes_leValue (leBytes k n)

/-- From `2 ^ 32` bytes on, `cpu_to_le32` truncates the stored length: the push declares its
payload's length modulo `2 ^ 32`. -/
theorem getPushSize_pushScript_large {q : Bytes} (hq : 65536 ≤ q.length) (rest : Bytes) :
    getPushSize 64 (pushScript q ++ rest) false = .ok (q.length % 2 ^ 32) := by
  have hm : q.length % 2 ^ 32 < 2 ^ 32 := Nat.mod_lt _ (by decide)
  have hh : pushOpcode q.length = PushForm.header .pushdata4 (q.length % 2 ^ 32) := by
    simp only [pushOpcode, PushForm.header, if_neg (by omega : ¬q.length < 76),
      if_neg (by omega : ¬q.length < 256), if_neg (by omega : ¬q.length < 65536)]
    rw [← leBytes_mod 4 q.length]; rfl
  have h5 : calcPushOpcodeSize q.length = 5 := by unfold calcPushOpcodeSize; split_ifs <;> omega
  rw [getPushSize_eq_ok]
  refine ⟨5, _, ?_, ?_, rfl⟩
  · rw [pushScript, hh, List.append_assoc, readPushHeader_header (f := .pushdata4) hm]; rfl
  · rw [Nat.mod_eq_of_lt (by omega)]
    simp only [List.length_append, length_pushScript, scriptGetPushSize, h5]
    omega

/-- The push of `2 ^ 32` zero bytes into a buffer that holds it: `cpu_to_le32` stores the header
`4e 00 00 00 00`, then the payload. -/
theorem wallyScriptPushFromBytes_zeros (c : Collab) :
    wallyScriptPushFromBytes c (List.replicate (2 ^ 32) 0) 0 (List.replicate (2 ^ 32 + 5) 0) 0
        (2 ^ 32 + 5) =
      ⟨.ok, 2 ^ 32 + 5, [opPushdata4, 0, 0, 0, 0] ++ List.replicate (2 ^ 32) 0⟩ := by
  -- rewriting only: `simp` would unfold the replicated lists
  have hq : (List.replicate (2 ^ 32) (0 : UInt8)).length = 2 ^ 32 := List.length_replicate _ _
  have hl : (pushScript (List.replicate (2 ^ 32) (0 : UInt8))).length = 2 ^ 32 + 5 := by
    rw [length_pushScript, hq]; rfl
  have hp : pushPayload c (List.replicate (2 ^ 32) 0) 0 = List.replicate (2 ^ 32) 0 := rfl
  rw [wallyScriptPushFromBytes_eq (by decide) (by decide), hp, Outcome.sizedAt, hl,
    if_neg (Nat.lt_irrefl _), Bytes.write_zero, hl, List.drop_replicate, Nat.sub_self,
    List.replicate_zero, List.append_nil, pushScript, hq]
  rfl

/-- A payload of `2 ^ 32` zero bytes is stored behind the header `4e 00 00 00 00`, which the
decoder reads as an empty push. -/
theorem push_length_truncated (c : Collab) :
    wallyScriptPushFromBytes c (List.replicate (2 ^ 32) 0) 0 (List.replicate (2 ^ 32 + 5) 0) 0
        (2 ^ 32 + 5) =
      ⟨.ok, 2 ^ 32 + 5, [opPushdata4, 0, 0, 0, 0] ++ List.replicate (2 ^ 32) 0⟩ ∧
    scriptGetPushSizeFromBytes 64 ([opPushdata4, 0, 0, 0, 0] ++ List.replicate (2 ^ 32) 0) =
      .ok 0 := by
  refine ⟨wallyScriptPushFromBytes_zeros c, ?_⟩
  have hq : (List.replicate (2 ^ 32) (0 : UInt8)).length = 2 ^ 32 := List.length_replicate _ _
  have hs : pushScript (List.replicate (2 ^ 32) 0) =
      [opPushdata4, 0, 0, 0, 0] ++ List.replicate (2 ^ 32) 0 := by
    rw [pushScript, hq]; rfl
  have := getPushSize_pushScript_large (q := List.replicate (2 ^ 32) 0) (by rw [hq]; decide) []
  rwa [List.append_nil, hs, hq] at this

end WallyScript
