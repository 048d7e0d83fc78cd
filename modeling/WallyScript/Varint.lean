import WallyScript.Basic

/-!
# Varints

The compact unsigned integer of the wire format (`script.c`, lines 118–155 and 289–316): a value
up to 252 is one byte, and a larger one is a tag byte, `VI_TAG_16`, `VI_TAG_32` or `VI_TAG_64`,
followed by the value in 2, 4 or 8 little-endian bytes.

The encoder `varintToBytes` always picks the shortest form, whose length `varintGetLength`
computes on its own. The decoder `varintFromBytes` trusts the tag it reads: it accepts every form,
shortest or not, and consumes `varintLengthFromBytes` bytes of its input. The results are

* `varintToBytes_length`: the encoder writes and returns `varintGetLength v` bytes;
* `varintFromBytes_varintToBytes`: decoding what was encoded, whatever follows it, gives the value
  back with that length;
* `varintToBytes_varintFromBytes_iff`: re-encoding a decoded value reproduces the bytes it was
  read from exactly when they are in the shortest form, `IsCanonicalVarint`;
* `varbuffToBytes_eq`: a length-prefixed buffer is the varint of its length and then its bytes.

The decoder builds its value as `b(n) | ... | b(1)`, with `b(i) = bytes[i] << (i - 1) * 8`, which
is `orShiftedBytes` of the basic module: `orShiftedBytes_eq_leValue` turns it into the
little-endian value once for all three tags.
-/

namespace WallyScript

/-- `VI_TAG_16`. -/
def viTag16 : UInt8 := 253

/-- `VI_TAG_32`. -/
def viTag32 : UInt8 := 254

/-- `VI_TAG_64`. -/
def viTag64 : UInt8 := 255

/-- `VI_MAX_8`. -/
def viMax8 : Nat := 252

/-- `VI_MAX_16`, that is `USHRT_MAX`. -/
def viMax16 : Nat := 0xffff

/-- `VI_MAX_32`, that is `UINT_MAX`. -/
def viMax32 : Nat := 0xffffffff

/-- `varint_get_length`. -/
def varintGetLength (v : UInt64) : Nat :=
  if v.toNat ≤ viMax8 then 1
  else if v.toNat ≤ viMax16 then 1 + 2
  else if v.toNat ≤ viMax32 then 1 + 4
  else 1 + 8

/-- `varint_to_bytes`: the bytes it stores through `bytes_out`, and the count it returns. -/
def varintToBytes (v : UInt64) : Bytes × Nat :=
  if v.toNat ≤ viMax8 then ([UInt8.ofNat v.toNat], 1)
  else if v.toNat ≤ viMax16 then (viTag16 :: leBytes 2 v.toNat, 1 + 2)
  else if v.toNat ≤ viMax32 then (viTag32 :: leBytes 4 v.toNat, 1 + 4)
  else (viTag64 :: leBytes 8 v.toNat, 1 + 8)

/-- `varint_length_from_bytes`: the length the tag byte `*bytes` announces. -/
def varintLengthFromBytes (bytes : Bytes) : Nat :=
  let tag := bytes.getD 0 0
  if tag = viTag16 then 1 + 2
  else if tag = viTag32 then 1 + 4
  else if tag = viTag64 then 1 + 8
  else 1

/-- `varint_from_bytes`: the value it stores through `v`, and the count it returns. -/
def varintFromBytes (bytes : Bytes) : UInt64 × Nat :=
  let tag := bytes.getD 0 0
  if tag = viTag16 then (UInt64.ofNat (orShiftedBytes bytes 2), 1 + 2)
  else if tag = viTag32 then (UInt64.ofNat (orShiftedBytes bytes 4), 1 + 4)
  else if tag = viTag64 then (UInt64.ofNat (orShiftedBytes bytes 8), 1 + 8)
  else (UInt64.ofNat tag.toNat, 1)

/-- `varbuff_to_bytes`: the varint of the length at `bytes_out`, then the bytes after it; the
buffer afterwards and the count returned. -/
def varbuffToBytes (bytes : Bytes) (mem : Bytes) : Bytes × Nat :=
  let (hdr, n) := varintToBytes (UInt64.ofNat bytes.length)
  ((mem.write 0 hdr).write n bytes, n + bytes.length)

/-- `wally_varint_get_length`: the length it stores through `written`. -/
def wallyVarintGetLength (value : UInt64) : Nat :=
  varintGetLength value

/-- `wally_varbuff_get_length`: the length it stores through `written`. -/
def wallyVarbuffGetLength (bytes : Bytes) : Nat :=
  varintGetLength (UInt64.ofNat bytes.length) + bytes.length

/-- `wally_varint_to_bytes`. -/
def wallyVarintToBytes (value : UInt64) (out : Bytes) : Outcome :=
  if out.length < varintGetLength value then ⟨.einval, 0, out⟩
  else ⟨.ok, (varintToBytes value).2, out.write 0 (varintToBytes value).1⟩

/-- `wally_varbuff_to_bytes`. -/
def wallyVarbuffToBytes (bytes : Bytes) (out : Bytes) : Outcome :=
  if out.length < varintGetLength (UInt64.ofNat bytes.length) + bytes.length then ⟨.einval, 0, out⟩
  else ⟨.ok, (varbuffToBytes bytes out).2, (varbuffToBytes bytes out).1⟩

/-- The shortest-form rule: a byte below `VI_TAG_16`, or a tag followed by a little-endian value
that no shorter form can hold. -/
def IsCanonicalVarint : Bytes → Prop
  | [] => False
  | tag :: rest =>
    tag.toNat < 253 ∨
      (tag = viTag16 ∧ viMax8 < leValue (rest.take 2)) ∨
      (tag = viTag32 ∧ viMax16 < leValue (rest.take 4)) ∨
      (tag = viTag64 ∧ viMax32 < leValue (rest.take 8))

/-! ### The decoder's value -/

@[simp] theorem toNat_ofNat_u64 (n : Nat) : (UInt64.ofNat n).toNat = n % 2 ^ 64 := rfl

theorem u64_eq_iff {a b : UInt64} : a = b ↔ a.toNat = b.toNat := ⟨congrArg _, UInt64.toNat.inj⟩

@[simp] theorem ofNat_toNat_u64 (v : UInt64) : UInt64.ofNat v.toNat = v :=
  u64_eq_iff.mpr (by simpa using Nat.mod_eq_of_lt v.toNat_lt_size)

/-- The value read after a tag: `k` little-endian bytes. -/
theorem varintFromBytes_tag {tag : UInt8} {r : Bytes} {k : Nat}
    (hk : (k = 2 ∧ tag = viTag16) ∨ (k = 4 ∧ tag = viTag32) ∨ (k = 8 ∧ tag = viTag64)) :
    varintFromBytes (tag :: r) = (UInt64.ofNat (leValue (r.take k)), 1 + k) ∧
      varintLengthFromBytes (tag :: r) = 1 + k := by
  rcases hk with ⟨rfl, rfl⟩ | ⟨rfl, rfl⟩ | ⟨rfl, rfl⟩ <;>
    simp [varintFromBytes, varintLengthFromBytes, orShiftedBytes_eq_leValue, viTag16, viTag32,
      viTag64]

/-- A byte below the tags is a value of its own. -/
theorem varintFromBytes_small {tag : UInt8} {r : Bytes} (h : tag.toNat < 253) :
    varintFromBytes (tag :: r) = (UInt64.ofNat tag.toNat, 1) ∧
      varintLengthFromBytes (tag :: r) = 1 := by
  have : tag ≠ viTag16 ∧ tag ≠ viTag32 ∧ tag ≠ viTag64 := by
    refine ⟨?_, ?_, ?_⟩ <;> rintro rfl <;> simp [viTag16, viTag32, viTag64, UInt8.size] at h
  simp [varintFromBytes, varintLengthFromBytes, this]

/-! ### Encoding -/

/-- **The encoder's length.** `varint_to_bytes` stores and returns `varint_get_length v` bytes. -/
theorem varintToBytes_length (v : UInt64) :
    (varintToBytes v).2 = varintGetLength v ∧ (varintToBytes v).1.length = varintGetLength v := by
  unfold varintToBytes varintGetLength; split_ifs <;> simp

/-- The encoder always writes the shortest form. -/
theorem varintToBytes_canonical (v : UInt64) : IsCanonicalVarint (varintToBytes v).1 := by
  have hv : v.toNat < 2 ^ 64 := v.toNat_lt_size
  unfold varintToBytes
  split_ifs <;> simp only [viMax8, viMax16, viMax32, not_le] at * <;>
    simp [IsCanonicalVarint, viMax8, viMax16, viMax32, List.take_of_length_le] <;> omega

/-- **Round trip.** Decoding what `varint_to_bytes` wrote, whatever follows it, gives the value
back, and both decoders count `varint_get_length v` bytes. -/
theorem varintFromBytes_varintToBytes (v : UInt64) (tail : Bytes) :
    varintLengthFromBytes ((varintToBytes v).1 ++ tail) = varintGetLength v ∧
      varintFromBytes ((varintToBytes v).1 ++ tail) = (v, varintGetLength v) := by
  have hv : v.toNat < 2 ^ 64 := v.toNat_lt_size
  unfold varintToBytes varintGetLength
  split_ifs <;> simp only [viMax8, viMax16, viMax32, not_le] at *
  · have hs : (UInt8.ofNat v.toNat).toNat < 253 := by simp; omega
    obtain ⟨hd, hl⟩ := varintFromBytes_small (r := tail) hs
    simp_all [Nat.mod_eq_of_lt (show v.toNat < 256 by omega)]
  · obtain ⟨hd, hl⟩ := varintFromBytes_tag (r := leBytes 2 v.toNat ++ tail) (.inl ⟨rfl, rfl⟩)
    simp [hd, hl, List.take_left', Nat.mod_eq_of_lt (show v.toNat < 65536 by omega)]
  · obtain ⟨hd, hl⟩ := varintFromBytes_tag (r := leBytes 4 v.toNat ++ tail)
      (.inr (.inl ⟨rfl, rfl⟩))
    simp [hd, hl, List.take_left', Nat.mod_eq_of_lt (show v.toNat < 4294967296 by omega)]
  · obtain ⟨hd, hl⟩ := varintFromBytes_tag (r := leBytes 8 v.toNat ++ tail)
      (.inr (.inr ⟨rfl, rfl⟩))
    simp [hd, hl, List.take_left', Nat.mod_eq_of_lt (show v.toNat < 18446744073709551616 by omega)]

/-! ### Decoding -/

/-- Encoding a value that fits `k` bytes gives the tagged `k`-byte form exactly when the value is
too large for every shorter form. -/
theorem varintToBytes_tag {tag : UInt8} {k lo w : Nat}
    (hk : (k = 2 ∧ tag = viTag16 ∧ lo = viMax8) ∨ (k = 4 ∧ tag = viTag32 ∧ lo = viMax16) ∨
      (k = 8 ∧ tag = viTag64 ∧ lo = viMax32)) (hw : w < 256 ^ k) :
    (varintToBytes (UInt64.ofNat w)).1 = tag :: leBytes k w ↔ lo < w := by
  have hw' : w % 2 ^ 64 = w := Nat.mod_eq_of_lt (lt_of_lt_of_le hw (by rcases hk with
    ⟨rfl, -⟩ | ⟨rfl, -⟩ | ⟨rfl, -⟩ <;> decide))
  rcases hk with ⟨rfl, rfl, rfl⟩ | ⟨rfl, rfl, rfl⟩ | ⟨rfl, rfl, rfl⟩ <;>
    simp only [varintToBytes, toNat_ofNat_u64, hw', viMax8, viMax16, viMax32] at * <;>
    split_ifs <;> simp [viTag16, viTag32, viTag64, leBytes_succ] <;> omega

/-- The decoder consumes the length its tag announces. -/
theorem varintFromBytes_snd (b : Bytes) : (varintFromBytes b).2 = varintLengthFromBytes b := by
  simp only [varintFromBytes, varintLengthFromBytes]; split_ifs <;> rfl

/-- **Canonical forms.** On a buffer that holds the bytes its tag announces, re-encoding the value
read reproduces them exactly when they are the shortest form. -/
theorem varintToBytes_varintFromBytes_iff (b : Bytes) (h : varintLengthFromBytes b ≤ b.length) :
    (varintToBytes (varintFromBytes b).1).1 = b.take (varintLengthFromBytes b) ↔
      IsCanonicalVarint b := by
  obtain _ | ⟨tag, rest⟩ := b
  · simp [varintLengthFromBytes, viTag16, viTag32, viTag64] at h
  by_cases hs : tag.toNat < 253
  · -- a one-byte varint is its own encoding, and always canonical
    obtain ⟨hd, hl⟩ := varintFromBytes_small (r := rest) hs
    simp [hd, hl, IsCanonicalVarint, hs, varintToBytes, viMax8,
      Nat.mod_eq_of_lt (show tag.toNat < 18446744073709551616 by omega),
      show tag.toNat ≤ 252 by omega]
  -- a tag: `k` little-endian bytes follow, canonical when their value is above `lo`
  have htag : (tag = viTag16 ∨ tag = viTag32 ∨ tag = viTag64) := by
    have := byte_toNat_lt tag
    simp only [byte_eq_iff, viTag16, viTag32, viTag64]; simp; omega
  have hk : ∃ k lo, ((k = 2 ∧ tag = viTag16 ∧ lo = viMax8) ∨ (k = 4 ∧ tag = viTag32 ∧ lo = viMax16) ∨
      (k = 8 ∧ tag = viTag64 ∧ lo = viMax32)) := by
    rcases htag with h | h | h
    exacts [⟨2, _, .inl ⟨rfl, h, rfl⟩⟩, ⟨4, _, .inr (.inl ⟨rfl, h, rfl⟩)⟩,
      ⟨8, _, .inr (.inr ⟨rfl, h, rfl⟩)⟩]
  obtain ⟨k, lo, hk⟩ := hk
  obtain ⟨hd, hl⟩ := varintFromBytes_tag (r := rest) (hk.imp (fun h => ⟨h.1, h.2.1⟩)
    (Or.imp (fun h => ⟨h.1, h.2.1⟩) (fun h => ⟨h.1, h.2.1⟩)))
  rw [hl] at h ⊢
  -- the encoder writes the value read back in `k` bytes again, after the smallest tag for it
  have hlen : (rest.take k).length = k := by simp at h; simp; omega
  have hw := leValue_lt (rest.take k)
  rw [hlen] at hw
  have hb : leBytes k (leValue (rest.take k)) = rest.take k := by
    have := leBytes_leValue (rest.take k); rwa [hlen] at this
  have hre := varintToBytes_tag hk hw
  rw [hb] at hre
  rw [hd, Nat.add_comm 1 k, List.take_succ_cons]
  dsimp only
  rw [hre]
  rcases hk with ⟨rfl, rfl, rfl⟩ | ⟨rfl, rfl, rfl⟩ | ⟨rfl, rfl, rfl⟩ <;>
    simp [IsCanonicalVarint, viTag16, viTag32, viTag64]

/-- **Length-prefixed buffers.** `varbuff_to_bytes` stores the varint of the length and then the
bytes, and returns their total length. -/
theorem varbuffToBytes_eq (bytes mem : Bytes)
    (_h : varintGetLength (UInt64.ofNat bytes.length) + bytes.length ≤ mem.length) :
    varbuffToBytes bytes mem =
      ((varintToBytes (UInt64.ofNat bytes.length)).1 ++ bytes ++
        mem.drop (varintGetLength (UInt64.ofNat bytes.length) + bytes.length),
       varintGetLength (UInt64.ofNat bytes.length) + bytes.length) := by
  obtain ⟨h2, h1⟩ := varintToBytes_length (UInt64.ofNat bytes.length)
  simp only [varbuffToBytes, h2]
  rw [← h1, ← Nat.zero_add (varintToBytes _).1.length, Bytes.write_write,
    Bytes.write_zero]
  simp

/-- **Varint codec.** The encoder writes and returns `varint_get_length v` bytes, in the shortest
form; decoding them, whatever follows, gives `v` and that length back; the decoder consumes the
length its tag announces, and on a buffer that holds it, re-encoding the value reproduces those
bytes exactly when they are the shortest form; and a length-prefixed buffer is the varint of its
length followed by its bytes. -/
theorem varint_codec :
    (∀ v : UInt64, (varintToBytes v).2 = varintGetLength v ∧
      (varintToBytes v).1.length = varintGetLength v ∧ IsCanonicalVarint (varintToBytes v).1) ∧
    (∀ (v : UInt64) (tail : Bytes),
      varintLengthFromBytes ((varintToBytes v).1 ++ tail) = varintGetLength v ∧
        varintFromBytes ((varintToBytes v).1 ++ tail) = (v, varintGetLength v)) ∧
    (∀ b : Bytes, (varintFromBytes b).2 = varintLengthFromBytes b) ∧
    (∀ b : Bytes, varintLengthFromBytes b ≤ b.length →
      ((varintToBytes (varintFromBytes b).1).1 = b.take (varintLengthFromBytes b) ↔
        IsCanonicalVarint b)) ∧
    (∀ bytes mem : Bytes, varintGetLength (UInt64.ofNat bytes.length) + bytes.length ≤ mem.length →
      varbuffToBytes bytes mem =
        ((varintToBytes (UInt64.ofNat bytes.length)).1 ++ bytes ++
          mem.drop (varintGetLength (UInt64.ofNat bytes.length) + bytes.length),
         varintGetLength (UInt64.ofNat bytes.length) + bytes.length)) :=
  ⟨fun v => ⟨(varintToBytes_length v).1, (varintToBytes_length v).2, varintToBytes_canonical v⟩,
    varintFromBytes_varintToBytes, varintFromBytes_snd, varintToBytes_varintFromBytes_iff,
    varbuffToBytes_eq⟩

/-- `varint_codec` on the non-shortest form `fd 05 00` of 5, and on a two-byte buffer. -/
theorem varint_codec_sample :
    (varintLengthFromBytes [253, 5, 0] ≤ 3 ∧
      ((varintToBytes (varintFromBytes [253, 5, 0]).1).1 = [253, 5, 0] ↔
        IsCanonicalVarint [253, 5, 0])) ∧
    (varintGetLength 2 + 2 ≤ 4 ∧ varbuffToBytes [7, 8] [0, 0, 0, 0] = ([2, 7, 8, 0], 3)) :=
  ⟨⟨by decide, varint_codec.2.2.2.1 [253, 5, 0] (by decide)⟩,
    ⟨by decide, varint_codec.2.2.2.2 [7, 8] [0, 0, 0, 0] (by decide)⟩⟩

/-! ### The length-prefixed buffer API -/

/-- **Length-prefixed buffers through the API.** For every value, `wally_varint_to_bytes`
succeeds exactly on the buffers that hold `wally_varint_get_length` bytes and writes that many.
For every buffer of fewer than `2 ^ 64` bytes, `wally_varbuff_to_bytes` succeeds exactly on the
buffers that hold `wally_varbuff_get_length` bytes, writes that many, and leaves the buffer's
length alone; reading its output back, `varint_from_bytes` gives the length and the count of the
varint, and the bytes behind the varint are the buffer. -/
theorem varbuff_api :
    (∀ (v : UInt64) (out : Bytes),
      ((wallyVarintToBytes v out).ret = .ok ↔ wallyVarintGetLength v ≤ out.length) ∧
      ((wallyVarintToBytes v out).ret = .ok →
        (wallyVarintToBytes v out).written = wallyVarintGetLength v)) ∧
    (∀ bytes out : Bytes, bytes.length < 2 ^ 64 →
      ((wallyVarbuffToBytes bytes out).ret = .ok ↔ wallyVarbuffGetLength bytes ≤ out.length) ∧
      ((wallyVarbuffToBytes bytes out).ret = .ok →
        (wallyVarbuffToBytes bytes out).written = wallyVarbuffGetLength bytes ∧
        (wallyVarbuffToBytes bytes out).mem.length = out.length ∧
        ((varintFromBytes (wallyVarbuffToBytes bytes out).mem).1.toNat = bytes.length ∧
          (((wallyVarbuffToBytes bytes out).mem.drop
            (varintFromBytes (wallyVarbuffToBytes bytes out).mem).2).take bytes.length = bytes)))) := by
  refine ⟨fun v out => ?_, fun bytes out h64 => ?_⟩
  · unfold wallyVarintToBytes wallyVarintGetLength
    split_ifs with h
    · exact ⟨by simp; omega, fun h' => by cases h'⟩
    · exact ⟨by simp; omega, fun _ => (varintToBytes_length v).1⟩
  · unfold wallyVarbuffToBytes wallyVarbuffGetLength
    split_ifs with h
    · exact ⟨by simp; omega, fun h' => by cases h'⟩
    -- the varint of the length, then the bytes: the reader takes the varint and its count
    have hL := varintToBytes_length (UInt64.ofNat bytes.length)
    have hrd := (varintFromBytes_varintToBytes (UInt64.ofNat bytes.length)
      (bytes ++ out.drop (varintGetLength (UInt64.ofNat bytes.length) + bytes.length))).2
    have hv : (UInt64.ofNat bytes.length).toNat = bytes.length := by
      rw [toNat_ofNat_u64]; exact Nat.mod_eq_of_lt h64
    rw [varbuffToBytes_eq bytes out (by omega)]
    refine ⟨by simp; omega, fun _ => ⟨rfl, by simp [hL.2]; omega, ?_⟩⟩
    rw [List.append_assoc, hrd, hv, ← hL.2, List.drop_left, List.take_left]
    exact ⟨rfl, rfl⟩

/-- A two-byte buffer into four bytes: the varint `02`, then the bytes. -/
theorem varbuff_api_two :
    ([7, 8] : Bytes).length < 2 ^ 64 ∧
      ((wallyVarbuffToBytes [7, 8] [0, 0, 0, 0]).ret = .ok ↔
        wallyVarbuffGetLength [7, 8] ≤ [(0 : UInt8), 0, 0, 0].length) :=
  ⟨by decide, (varbuff_api.2 [7, 8] [0, 0, 0, 0] (by decide)).1⟩

end WallyScript

