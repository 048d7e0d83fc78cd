import WallyScript.Basic

/-!
# Script integers

The minimal signed integer that scripts carry as push data (`script.c`, lines 157–220): the
magnitude in little-endian bytes, as few as hold it, with the sign in the top bit of the last
byte, and one more byte, `0x00` or `0x80`, when the magnitude's own top byte has that bit set.

`scriptintGetLength` and `scriptintToBytes` run the same `while (v)` loop over the magnitude,
`magnitudeBytes`; the first counts, the second stores. `scriptintFromBytes` reads a length byte of
at most 4 and that many data bytes, or-ing them into place and then clearing and reading the sign
bit. The CSV templates of the classifier and of the builders rest on these three agreeing, and
they do (`scriptint_codec`):

* the encoder stores `scriptintGetLength v ≤ 4` bytes for every `|v| < 2 ^ 31`, in the minimal
  encoding `IsMinimalScriptint`, and the decoder reads `v` back from them;
* every minimal encoding of at most four bytes is the encoder's output for the value it decodes
  to.

The arithmetic under both directions is the digit view of the loop: `magnitudeBytes` of the
little-endian value of bytes whose last byte is not zero gives those bytes back
(`magnitudeBytes_leValue`), and its bytes have the magnitude as little-endian value
(`leValue_magnitudeBytes`).
-/

namespace WallyScript

/-- The `while (v) { last = v & 0xff; ...; v >>= 8; }` loop of `scriptint_get_length` and
`scriptint_to_bytes`: the successive values of `last`, least significant first. -/
def magnitudeBytes (v : Nat) : List Nat :=
  if v = 0 then [] else (v &&& 0xff) :: magnitudeBytes (v >>> 8)
termination_by v
decreasing_by
  rw [Nat.shiftRight_eq_div_pow]; exact Nat.div_lt_self (by omega) (by decide)

/-- `scriptint_get_length`: the loop's count, plus one when its last byte has the top bit set.
`signed_v < 0 ? -signed_v : signed_v` is the magnitude `natAbs`. -/
def scriptintGetLength (signedV : Int) : Nat :=
  let lasts := magnitudeBytes signedV.natAbs
  lasts.length + if lasts.getLastD 0 &&& 0x80 ≠ 0 then 1 else 0

/-- `scriptint_to_bytes`: the bytes it stores, one per turn of the loop, then either a sign byte
after them or the sign or-ed into the last one (`bytes_out[-1] |= 0x80`). -/
def scriptintToBytes (signedV : Int) : Bytes :=
  let lasts := magnitudeBytes signedV.natAbs
  let last := lasts.getLastD 0
  if last &&& 0x80 ≠ 0 then lasts.map UInt8.ofNat ++ [if signedV < 0 then 0x80 else 0]
  else if signedV < 0 then (lasts.map UInt8.ofNat).dropLast ++ [UInt8.ofNat (last ||| 0x80)]
  else lasts.map UInt8.ofNat

/-- The `for (i = 0; i < bytes[0]; ++i)` loop of `scriptint_from_bytes` after `i` turns:
`*value_out`, or-ed with `bytes[i + 1] << (8 * i)` at each turn, and `mask`, shifted left by 8. -/
def scriptintLoop (bytes : Bytes) : Nat → Nat × Nat
  | 0 => (0, 0x80)
  | i + 1 =>
    let (value, mask) := scriptintLoop bytes i
    (value ||| ((bytes.getD (i + 1) 0).toNat <<< (8 * i)), mask <<< 8)

/-- `scriptint_from_bytes`: at most four data bytes after a length byte; `WALLY_EINVAL`, or the
value stored through `value_out`. -/
def scriptintFromBytes (bytes : Bytes) : Except Ret Int :=
  let n := (bytes.getD 0 0).toNat
  if bytes.length < 1 ∨ bytes.length ≤ n ∨ n > 4 then .error .einval
  else
    let (value, mask) := scriptintLoop bytes n
    if (bytes.getD n 0).toNat &&& 0x80 ≠ 0 then .ok (-((value ^^^ (mask >>> 8) : Nat) : Int))
    else .ok value

/-- The minimal script-number encoding: nothing for zero; otherwise a last byte whose low seven
bits are not all zero, or whose predecessor has its top bit set. -/
def IsMinimalScriptint (d : Bytes) : Prop :=
  d = [] ∨ (d.getLastD 0).toNat % 128 ≠ 0 ∨ 128 ≤ (d.dropLast.getLastD 0).toNat

instance (d : Bytes) : Decidable (IsMinimalScriptint d) :=
  inferInstanceAs (Decidable (d = [] ∨ _ ∨ _))

/-- The number that script data `d` denotes: its little-endian value, negated with the top bit of
the last byte cleared when that bit is set. -/
def scriptnumValue (d : Bytes) : Int :=
  if 128 ≤ (d.getLastD 0).toNat then -((leValue d - 2 ^ (8 * d.length - 1) : Nat) : Int)
  else leValue d

/-! ### The loop in digits -/

theorem magnitudeBytes_zero : magnitudeBytes 0 = [] := by
  rw [magnitudeBytes]; simp

theorem magnitudeBytes_of_ne_zero {v : Nat} (h : v ≠ 0) :
    magnitudeBytes v = v % 256 :: magnitudeBytes (v / 256) := by
  rw [magnitudeBytes, if_neg h, Nat.shiftRight_eq_div_pow,
    show (0xff : Nat) = 2 ^ 8 - 1 from rfl, Nat.and_pow_two_sub_one_eq_mod]

theorem magnitudeBytes_lt {v d : Nat} (h : d ∈ magnitudeBytes v) : d < 256 := by
  induction v using Nat.strongRecOn with
  | ind v ih =>
    rcases Nat.eq_zero_or_pos v with rfl | hv
    · simp [magnitudeBytes_zero] at h
    rw [magnitudeBytes_of_ne_zero hv.ne'] at h
    rcases List.mem_cons.mp h with rfl | h
    · exact Nat.mod_lt _ (by decide)
    · exact ih _ (Nat.div_lt_self hv (by decide)) h

/-- The bytes the loop produces have the magnitude as little-endian value. -/
theorem leValue_magnitudeBytes (v : Nat) : leValue ((magnitudeBytes v).map UInt8.ofNat) = v := by
  induction v using Nat.strongRecOn with
  | ind v ih =>
    rcases Nat.eq_zero_or_pos v with rfl | hv
    · simp [magnitudeBytes_zero]
    rw [magnitudeBytes_of_ne_zero hv.ne', List.map_cons, leValue_cons,
      ih _ (Nat.div_lt_self hv (by decide))]
    simp [Nat.mod_mod]; omega

/-- The loop takes at most `k` turns exactly on magnitudes below `256 ^ k`. -/
theorem length_magnitudeBytes_le {v k : Nat} : (magnitudeBytes v).length ≤ k ↔ v < 256 ^ k := by
  induction k generalizing v with
  | zero =>
    rcases Nat.eq_zero_or_pos v with rfl | hv
    · simp [magnitudeBytes_zero]
    · simp [magnitudeBytes_of_ne_zero hv.ne']; omega
  | succ k ih =>
    rcases Nat.eq_zero_or_pos v with rfl | hv
    · simp [magnitudeBytes_zero, Nat.pos_pow_of_pos]
    · rw [magnitudeBytes_of_ne_zero hv.ne', List.length_cons, Nat.add_le_add_iff_right, ih,
        Nat.pow_succ, Nat.div_lt_iff_lt_mul (by decide)]

theorem magnitudeBytes_eq_nil {v : Nat} : magnitudeBytes v = [] ↔ v = 0 := by
  rw [← List.length_eq_zero, ← Nat.le_zero, length_magnitudeBytes_le]; simp

/-! ### Bits of the last byte -/

theorem and_0x80_ne_zero {x : Nat} (h : x < 256) : x &&& 0x80 ≠ 0 ↔ 128 ≤ x := by
  rw [show (0x80 : Nat) = 2 ^ 7 from rfl, Nat.and_two_pow, Nat.testBit_to_div_mod]
  by_cases h' : 128 ≤ x
  · simp [show x / 128 % 2 = 1 by omega, h']
  · simp [show x / 128 % 2 = 0 by omega, h']

theorem or_0x80 {x : Nat} (h : x < 128) : x ||| 0x80 = x + 128 := by
  rw [Nat.lor_comm, show (0x80 : Nat) = 2 ^ 7 * 1 from rfl, ← Nat.mul_add_lt_is_or h]; omega

/-- Clearing a set top bit is subtracting it. -/
theorem xor_two_pow {x k : Nat} (h1 : 2 ^ k ≤ x) (h2 : x < 2 ^ (k + 1)) :
    x ^^^ 2 ^ k = x - 2 ^ k := by
  obtain ⟨r, rfl⟩ : ∃ r, x = 2 ^ k + r := ⟨x - 2 ^ k, by omega⟩
  have hr : r < 2 ^ k := by rw [Nat.pow_succ] at h2; omega
  rw [Nat.add_sub_cancel_left]
  apply Nat.eq_of_testBit_eq; intro i
  rw [Nat.testBit_xor, show 2 ^ k + r = 2 ^ k * 1 + r by omega, Nat.mul_add_lt_is_or hr,
    Nat.testBit_or, Nat.mul_one, Nat.testBit_two_pow]
  by_cases hki : k = i
  · subst hki; simp [Nat.testBit_lt_two_pow hr]
  · simp [hki]

theorem two_pow_sign_bit {n : Nat} (hn : 1 ≤ n) : 2 ^ (8 * n - 1) = 128 * 256 ^ (n - 1) := by
  obtain ⟨m, rfl⟩ : ∃ m, n = m + 1 := ⟨n - 1, by omega⟩
  rw [show 8 * (m + 1) - 1 = 8 * m + 7 by omega, Nat.pow_add, Nat.pow_mul, Nat.mul_comm]; rfl

/-- The last byte of `d ++ [x]` weighs `256 ^ d.length`. -/
theorem leValue_concat (d : Bytes) (x : UInt8) :
    leValue (d ++ [x]) = leValue d + 256 ^ d.length * x.toNat := by
  simp [leValue_append]

/-! ### The decoder -/

theorem scriptintLoop_eq (bytes : Bytes) (i : Nat) :
    scriptintLoop bytes i = (orShiftedBytes bytes i, 128 * 256 ^ i) := by
  induction i with
  | zero => rfl
  | succ i ih =>
    simp only [scriptintLoop, ih, orShiftedBytes, Nat.lor_comm, Nat.mul_comm 8 i, Nat.shiftLeft_eq,
      Nat.pow_succ, Nat.mul_assoc]

/-- The byte at index `d.length` of `b :: d ++ rest` is the last of `d`, or `b` itself. -/
theorem getD_length_cons (b : UInt8) (d rest : Bytes) :
    (b :: (d ++ rest)).getD d.length 0 = d.getLastD b := by
  induction d generalizing b with
  | nil => rfl
  | cons x d ih => rw [List.length_cons, List.cons_append, List.getD_cons_succ, ih, List.getLastD_cons]

/-- `scriptint_from_bytes` on a length byte of at most 4 and the data after it reads the number the
data denotes. -/
theorem scriptintFromBytes_cons {d : Bytes} (rest : Bytes) (h : d.length ≤ 4) :
    scriptintFromBytes (UInt8.ofNat d.length :: (d ++ rest)) = .ok (scriptnumValue d) := by
  have hn : (UInt8.ofNat d.length).toNat = d.length := by simp; omega
  have hval : orShiftedBytes (UInt8.ofNat d.length :: (d ++ rest)) d.length = leValue d := by
    simp [orShiftedBytes_eq_leValue, List.take_left']
  simp only [scriptintFromBytes, List.getD_cons_zero, hn, scriptintLoop_eq, hval,
    getD_length_cons]
  rw [if_neg (by simp; omega)]
  rcases List.eq_nil_or_concat d with rfl | ⟨d, x, rfl⟩
  · rfl
  simp only [List.concat_eq_append, List.getLastD_concat, and_0x80_ne_zero (byte_toNat_lt x),
    scriptnumValue, List.length_append, List.length_singleton]
  split_ifs with hx
  · have hlt := leValue_lt (d ++ [x])
    have hx' := Nat.mul_le_mul_left (256 ^ d.length) hx
    rw [leValue_concat, List.length_append, List.length_singleton, Nat.pow_succ] at hlt
    have hsign := two_pow_sign_bit (n := d.length + 1) (by omega)
    rw [Nat.add_sub_cancel] at hsign
    have hmask : (128 * 256 ^ (d.length + 1)) >>> 8 = 2 ^ (8 * (d.length + 1) - 1) := by
      rw [hsign, Nat.shiftRight_eq_div_pow, Nat.pow_succ]; omega
    rw [hmask, xor_two_pow, leValue_concat]
    · rw [leValue_concat, hsign]; omega
    · rw [leValue_concat, Nat.sub_add_cancel (by omega), Nat.pow_mul]
      show _ < 256 ^ _; rw [Nat.pow_succ]; omega
  · rfl

/-- **The decoder.** `scriptint_from_bytes` succeeds exactly on a length byte of at most 4 followed
by at least that many bytes, and reads the number those bytes denote. -/
theorem scriptintFromBytes_eq_ok {bytes : Bytes} {v : Int} :
    scriptintFromBytes bytes = .ok v ↔
      ∃ d rest, bytes = UInt8.ofNat d.length :: (d ++ rest) ∧ d.length ≤ 4 ∧
        v = scriptnumValue d := by
  constructor
  · intro h
    obtain _ | ⟨b, tail⟩ := bytes
    · simp [scriptintFromBytes] at h
    have hc : b.toNat ≤ tail.length ∧ b.toNat ≤ 4 := by
      by_contra hc
      simp only [scriptintFromBytes, List.getD_cons_zero, List.length_cons] at h
      rw [if_pos (by omega)] at h
      cases h
    have hd : (tail.take b.toNat).length = b.toNat := by simp; omega
    have hb : b :: tail = UInt8.ofNat (tail.take b.toNat).length ::
        (tail.take b.toNat ++ tail.drop b.toNat) := by
      rw [hd, ofNat_toNat_byte, List.take_append_drop]
    have h4 : (tail.take b.toNat).length ≤ 4 := by rw [hd]; exact hc.2
    refine ⟨_, _, hb, h4, ?_⟩
    rw [hb, scriptintFromBytes_cons _ h4] at h
    exact (Except.ok.inj h).symm
  · rintro ⟨d, rest, rfl, hd, rfl⟩
    exact scriptintFromBytes_cons rest hd

/-! ### The encoder -/

/-- A non-zero magnitude is its loop's bytes `D` and a last one `l` that is not zero. -/
theorem magnitudeBytes_concat {m : Nat} (hm : m ≠ 0) :
    ∃ (D : Bytes) (l : Nat), magnitudeBytes m = D.map UInt8.toNat ++ [l] ∧ 0 < l ∧ l < 256 ∧
      m = leValue D + 256 ^ D.length * l := by
  rcases List.eq_nil_or_concat (magnitudeBytes m) with h | ⟨D, l, h⟩
  · exact absurd (magnitudeBytes_eq_nil.mp h) hm
  rw [List.concat_eq_append] at h
  have hl : l < 256 := magnitudeBytes_lt (by rw [h]; simp)
  have hD : (D.map UInt8.ofNat).map UInt8.toNat = D := by
    rw [List.map_map]; conv_rhs => rw [← List.map_id D]
    exact List.map_congr_left fun d hd => by
      simpa using Nat.mod_eq_of_lt (magnitudeBytes_lt (by rw [h]; simp [hd]))
  have hval := leValue_magnitudeBytes m
  rw [h, List.map_append, List.map_singleton, leValue_concat, List.length_map, toNat_ofNat_byte,
    Nat.mod_eq_of_lt hl] at hval
  refine ⟨D.map UInt8.ofNat, l, by rw [hD, h], Nat.pos_of_ne_zero fun hl0 => ?_, hl, by
    simpa using hval.symm⟩
  have hlt := leValue_lt (D.map UInt8.ofNat)
  rw [hl0, Nat.mul_zero, Nat.add_zero] at hval
  rw [hval, List.length_map] at hlt
  have := length_magnitudeBytes_le.mpr hlt
  rw [h, List.length_append, List.length_singleton] at this; omega

/-- The loop run backwards: the magnitude of bytes whose last byte is not zero has those bytes
as its digits. -/
theorem magnitudeBytes_leValue {bs : Bytes} (h : ∀ x ∈ bs.getLast?, x.toNat ≠ 0) :
    magnitudeBytes (leValue bs) = bs.map UInt8.toNat := by
  induction bs with
  | nil => simp [magnitudeBytes_zero]
  | cons b bs ih =>
    have hb := byte_toNat_lt b
    rcases bs.eq_nil_or_concat with rfl | ⟨bs', x, rfl⟩
    · have : b.toNat ≠ 0 := h b (by simp)
      rw [leValue_cons, leValue_nil, Nat.mul_zero, Nat.add_zero, magnitudeBytes_of_ne_zero this,
        Nat.mod_eq_of_lt hb, Nat.div_eq_of_lt hb, magnitudeBytes_zero]; rfl
    · have hx : x.toNat ≠ 0 := h x (by simp [List.getLast?_cons])
      have ih := ih (by simpa using hx)
      have hne : leValue (bs'.concat x) ≠ 0 := by
        intro h0; rw [h0, magnitudeBytes_zero] at ih; simp at ih
      rw [leValue_cons, magnitudeBytes_of_ne_zero (by omega),
        show (b.toNat + 256 * leValue (bs'.concat x)) / 256 = leValue (bs'.concat x) by omega, ih]
      simp; omega

/-- The encoder on a magnitude whose loop bytes are `D` and then `l`. -/
theorem scriptintToBytes_of_magnitudeBytes {v : Int} {D : Bytes} {l : Nat}
    (hD : magnitudeBytes v.natAbs = D.map UInt8.toNat ++ [l]) (hl : l < 256) :
    scriptintToBytes v =
      (if 128 ≤ l then D ++ [UInt8.ofNat l] ++ [if v < 0 then 0x80 else 0]
       else D ++ [UInt8.ofNat (if v < 0 then l + 128 else l)]) ∧
    scriptintGetLength v = D.length + if 128 ≤ l then 2 else 1 := by
  have hmap : (D.map UInt8.toNat).map UInt8.ofNat = D := by simp [List.map_map, Function.comp_def]
  simp only [scriptintToBytes, scriptintGetLength, hD, List.getLastD_concat, and_0x80_ne_zero hl,
    List.map_append, List.map_singleton, hmap, List.dropLast_concat, List.length_append,
    List.length_map, List.length_singleton]
  by_cases h128 : 128 ≤ l
  · simp [h128]
  · have hor : l ||| 0x80 = l + 128 := or_0x80 (by omega)
    by_cases hneg : v < 0 <;> simp [h128, hneg, hor]

theorem scriptintToBytes_zero : scriptintToBytes 0 = [] ∧ scriptintGetLength 0 = 0 := by
  simp [scriptintToBytes, scriptintGetLength, magnitudeBytes_zero]

/-- The encoder stores the count `scriptint_get_length` reports. -/
theorem length_scriptintToBytes (v : Int) :
    (scriptintToBytes v).length = scriptintGetLength v := by
  rcases eq_or_ne v.natAbs 0 with hm | hm
  · rw [Int.natAbs_eq_zero.mp hm]; simp [scriptintToBytes_zero]
  obtain ⟨D, l, hD, -, hl, -⟩ := magnitudeBytes_concat hm
  obtain ⟨h1, h2⟩ := scriptintToBytes_of_magnitudeBytes hD hl
  rw [h1, h2]; split_ifs <;> simp

/-- Magnitudes below `2 ^ (8k - 1)` take at most `k` bytes, sign included. -/
theorem scriptintGetLength_le {v : Int} {k : Nat} (hk : 1 ≤ k) (h : v.natAbs < 2 ^ (8 * k - 1)) :
    scriptintGetLength v ≤ k := by
  rcases eq_or_ne v.natAbs 0 with hm | hm
  · rw [Int.natAbs_eq_zero.mp hm]; simp [scriptintToBytes_zero]
  obtain ⟨D, l, hD, hl0, hl, hval⟩ := magnitudeBytes_concat hm
  rw [(scriptintToBytes_of_magnitudeBytes hD hl).2]
  split_ifs with h128
  · by_contra hc
    have hpow : 2 ^ (8 * k - 1) ≤ 256 ^ D.length * 128 :=
      calc 2 ^ (8 * k - 1) ≤ 2 ^ (8 * D.length + 7) := Nat.pow_le_pow_right (by decide) (by omega)
        _ = 256 ^ D.length * 128 := by rw [pow_add, pow_mul]; rfl
    have := Nat.mul_le_mul_left (256 ^ D.length) h128
    omega
  · have h256 : 2 ^ (8 * k - 1) ≤ 256 ^ k := by
      rw [show 256 = 2 ^ 8 from rfl, ← pow_mul]; exact Nat.pow_le_pow_right (by decide) (by omega)
    have := length_magnitudeBytes_le.mpr (show v.natAbs < 256 ^ k by omega)
    rw [hD] at this; simp at this; omega

/-- The number denoted by data ending in `x`: the sign is the top bit of `x`. -/
theorem scriptnumValue_concat (d : Bytes) (x : UInt8) :
    scriptnumValue (d ++ [x]) =
      if 128 ≤ x.toNat then -((leValue d + 256 ^ d.length * (x.toNat - 128) : Nat) : Int)
      else ((leValue d + 256 ^ d.length * x.toNat : Nat) : Int) := by
  have hs := two_pow_sign_bit (n := d.length + 1) (by omega)
  rw [Nat.add_sub_cancel] at hs
  simp only [scriptnumValue, List.getLastD_concat, leValue_concat, List.length_append,
    List.length_singleton, hs]
  split_ifs with hx
  · have : 256 ^ d.length * x.toNat = 256 ^ d.length * (x.toNat - 128) + 128 * 256 ^ d.length := by
      rw [Nat.mul_comm 128, ← Nat.mul_add, Nat.sub_add_cancel hx]
    rw [this, ← Nat.add_assoc, Nat.add_sub_cancel]
  · rfl

/-- **The encoder's value.** The bytes `scriptint_to_bytes` stores denote the integer encoded. -/
theorem scriptnumValue_scriptintToBytes (v : Int) : scriptnumValue (scriptintToBytes v) = v := by
  rcases eq_or_ne v.natAbs 0 with hm | hm
  · rw [Int.natAbs_eq_zero.mp hm]; simp [scriptintToBytes_zero, scriptnumValue]
  obtain ⟨D, l, hD, hl0, hl, hval⟩ := magnitudeBytes_concat hm
  rw [(scriptintToBytes_of_magnitudeBytes hD hl).1]
  split_ifs with h128 hneg hneg
  · rw [scriptnumValue_concat, if_pos (by decide), leValue_concat, toNat_ofNat_byte,
      Nat.mod_eq_of_lt hl, show (0x80 : UInt8).toNat - 128 = 0 from rfl, Nat.mul_zero,
      Nat.add_zero, ← hval]; omega
  · rw [scriptnumValue_concat, if_neg (by decide), leValue_concat, toNat_ofNat_byte,
      Nat.mod_eq_of_lt hl, show (0 : UInt8).toNat = 0 from rfl, Nat.mul_zero, Nat.add_zero,
      ← hval]; omega
  · rw [scriptnumValue_concat, toNat_ofNat_byte, Nat.mod_eq_of_lt (by omega), if_pos (by omega),
      Nat.add_sub_cancel, ← hval]; omega
  · rw [scriptnumValue_concat, toNat_ofNat_byte, Nat.mod_eq_of_lt hl, if_neg h128, ← hval]; omega

/-- The encoder's bytes are the minimal encoding. -/
theorem isMinimal_scriptintToBytes (v : Int) : IsMinimalScriptint (scriptintToBytes v) := by
  rcases eq_or_ne v.natAbs 0 with hm | hm
  · rw [Int.natAbs_eq_zero.mp hm]; simp [scriptintToBytes_zero, IsMinimalScriptint]
  obtain ⟨D, l, hD, hl0, hl, hval⟩ := magnitudeBytes_concat hm
  rw [(scriptintToBytes_of_magnitudeBytes hD hl).1]
  split_ifs with h128 hneg hneg <;>
    simp [IsMinimalScriptint, Nat.mod_eq_of_lt hl, h128, List.dropLast_concat] <;> omega

/-- **Minimal encodings are the encoder's.** Re-encoding the number a minimal encoding denotes
gives that encoding back. -/
theorem scriptintToBytes_scriptnumValue {d : Bytes} (hm : IsMinimalScriptint d) :
    scriptintToBytes (scriptnumValue d) = d := by
  rcases d.eq_nil_or_concat with rfl | ⟨d, L, rfl⟩
  · simp [scriptnumValue, scriptintToBytes_zero]
  rw [List.concat_eq_append] at *
  have hL := byte_toNat_lt L
  simp only [IsMinimalScriptint, List.getLastD_concat, List.dropLast_concat,
    List.append_eq_nil, List.cons_ne_nil, and_false, false_or] at hm
  rw [scriptnumValue_concat]
  by_cases hL' : L.toNat % 128 = 0
  · -- the last byte is a sign byte alone: minimality puts the top bit in the byte before it
    have hb128 := hm.resolve_left (by simpa using hL')
    obtain ⟨d', b, rfl⟩ : ∃ d' b, d = d' ++ [b] := by
      rcases d.eq_nil_or_concat with rfl | ⟨d', x, rfl⟩
      · simp at hb128
      · exact ⟨d', x, List.concat_eq_append _ _⟩
    rw [List.getLastD_concat] at hb128
    have hb' := byte_toNat_lt b
    have hmag : magnitudeBytes (leValue (d' ++ [b])) = d'.map UInt8.toNat ++ [b.toNat] := by
      rw [magnitudeBytes_leValue (by simp; omega)]; simp
    have hpos : 0 < leValue (d' ++ [b]) := by
      rw [leValue_concat]; have := Nat.pos_pow_of_pos d'.length (show 0 < 256 by decide)
      have := Nat.mul_le_mul_left (256 ^ d'.length) hb128; omega
    split_ifs with h128
    · -- negative: the encoder appends the sign byte `0x80`
      have hzero : L.toNat - 128 = 0 := by omega
      rw [hzero, Nat.mul_zero, Nat.add_zero]
      rw [(scriptintToBytes_of_magnitudeBytes (v := -((leValue (d' ++ [b]) : Nat) : Int))
        (by simpa using hmag) hb').1, if_pos hb128, if_pos (by omega)]
      simp [byte_eq_iff]; omega
    · -- positive: the encoder appends the byte `0x00`
      have hzero : L.toNat = 0 := by omega
      rw [hzero, Nat.mul_zero, Nat.add_zero]
      rw [(scriptintToBytes_of_magnitudeBytes (v := ((leValue (d' ++ [b]) : Nat) : Int))
        (by simpa using hmag) hb').1, if_pos hb128, if_neg (by omega)]
      simp [byte_eq_iff, hzero]
  · -- the last byte carries magnitude: its low seven bits end the magnitude
    have hl : L.toNat % 128 < 256 := by omega
    have hmag : magnitudeBytes (leValue (d ++ [UInt8.ofNat (L.toNat % 128)])) =
        d.map UInt8.toNat ++ [L.toNat % 128] := by
      rw [magnitudeBytes_leValue (by simp; omega)]; simp; omega
    rw [leValue_concat, toNat_ofNat_byte, Nat.mod_eq_of_lt hl] at hmag
    have hpos : 0 < leValue d + 256 ^ d.length * (L.toNat % 128) := by
      have := Nat.pos_pow_of_pos d.length (show 0 < 256 by decide)
      have := Nat.mul_le_mul_left (256 ^ d.length) (show 1 ≤ L.toNat % 128 by omega); omega
    split_ifs with h128
    · -- negative: the encoder sets the top bit of the last byte
      rw [show L.toNat - 128 = L.toNat % 128 by omega]
      rw [(scriptintToBytes_of_magnitudeBytes (v := -(((leValue d + 256 ^ d.length *
        (L.toNat % 128)) : Nat) : Int)) (D := d)
        (by rw [Int.natAbs_neg, Int.natAbs_ofNat]; exact hmag) hl).1, if_neg (by omega),
        if_pos (by omega)]
      simp [byte_eq_iff]; omega
    · -- positive: the magnitude bytes alone
      rw [Nat.mod_eq_of_lt (show L.toNat < 128 by omega)] at hmag hl
      rw [(scriptintToBytes_of_magnitudeBytes (v := (((leValue d + 256 ^ d.length *
        L.toNat) : Nat) : Int)) (D := d) (by rw [Int.natAbs_ofNat]; exact hmag) hl).1,
        if_neg (by omega), if_neg (by omega)]
      simp

/-- **Script-int codec.** For every `|v| < 2 ^ 31`, `scriptint_to_bytes` stores
`scriptint_get_length v ≤ 4` bytes, none exactly for zero, in the minimal encoding, and
`scriptint_from_bytes` reads `v` back from the length byte and those bytes, whatever follows them.
Conversely, the encoder reproduces every minimal encoding of at most four bytes from the value
`scriptint_from_bytes` reads out of it. -/
theorem scriptint_codec :
    (∀ v : Int, v.natAbs < 2 ^ 31 →
      (scriptintToBytes v).length = scriptintGetLength v ∧ scriptintGetLength v ≤ 4 ∧
      (scriptintToBytes v = [] ↔ v = 0) ∧ IsMinimalScriptint (scriptintToBytes v) ∧
      ∀ rest : Bytes, scriptintFromBytes
        (UInt8.ofNat (scriptintGetLength v) :: (scriptintToBytes v ++ rest)) = .ok v) ∧
    (∀ d : Bytes, d.length ≤ 4 → IsMinimalScriptint d →
      ∃ v, scriptintFromBytes (UInt8.ofNat d.length :: d) = .ok v ∧ scriptintToBytes v = d) := by
  refine ⟨fun v hv => ⟨length_scriptintToBytes v, scriptintGetLength_le (k := 4) (by decide) hv, ?_,
    isMinimal_scriptintToBytes v, fun rest => ?_⟩, fun d hd hm => ⟨_, ?_, scriptintToBytes_scriptnumValue hm⟩⟩
  · refine ⟨fun h => ?_, fun h => h ▸ scriptintToBytes_zero.1⟩
    rw [← scriptnumValue_scriptintToBytes v, h]; rfl
  · have h := scriptintFromBytes_cons (d := scriptintToBytes v) rest
      (by rw [length_scriptintToBytes]; exact scriptintGetLength_le (k := 4) (by decide) hv)
    rwa [length_scriptintToBytes, scriptnumValue_scriptintToBytes] at h
  · simpa using scriptintFromBytes_cons (d := d) [] hd

/-- `scriptint_codec` at -128, whose magnitude needs a sign byte of its own, and at the minimal
encoding `80 80` of that value. -/
theorem scriptint_codec_sample :
    ((-128 : Int).natAbs < 2 ^ 31 ∧ scriptintGetLength (-128) ≤ 4 ∧
      scriptintFromBytes (UInt8.ofNat (scriptintGetLength (-128)) :: (scriptintToBytes (-128) ++ []))
        = .ok (-128)) ∧
    (([0x80, 0x80] : Bytes).length ≤ 4 ∧ IsMinimalScriptint [0x80, 0x80] ∧
      ∃ v, scriptintFromBytes (UInt8.ofNat 2 :: [0x80, 0x80]) = .ok v ∧
        scriptintToBytes v = [0x80, 0x80]) :=
  ⟨⟨by decide, (scriptint_codec.1 (-128) (by decide)).2.1,
      (scriptint_codec.1 (-128) (by decide)).2.2.2.2 []⟩,
    ⟨by decide, by decide, scriptint_codec.2 [0x80, 0x80] (by decide) (by decide)⟩⟩

end WallyScript
