import Mathlib.Tactic.IntervalCases
import Mathlib.Tactic.Tauto
import Mathlib.Tactic.Linarith
import Mathlib.Data.List.GetD
import Mathlib.Data.Nat.Bitwise

/-!
# Bytes, buffers and return codes

The common ground of the model of `src/script.c`. A byte string is a `List UInt8`: every
`(const unsigned char *bytes, size_t bytes_len)` pair of the source is one list, of length
`bytes_len`. An output buffer `(unsigned char *bytes_out, size_t len)` is the list of the `len`
bytes it holds when the call starts, and every store of the source is a `Bytes.write` into it, so
that what a call does to caller memory is the buffer it hands back in its `Outcome`.

A `NULL` pointer has no counterpart: the model is the library called with valid pointers, where
`!bytes_len` is the empty list and `!len` the empty buffer.

The header constants the source includes (`wally_script.h`, `wally_crypto.h`, `script_int.h`)
are not part of the repository; the opcode values are Bitcoin's, and the lengths are the ones
the spec and the source's own comments state.

The external collaborators of the spec's section 6 (hashing, DER encoding, the BIP341 tweak,
HMAC and the secp256k1 point operations) are the fields of `Collab`, each with the length
contract the code relies on as a field of its own, so that no proof re-derives it. Three
instances run the model on concrete inputs: `sampleCollab` with fixed answers, `tweakCollab`
whose points pass the peg-in sanity check, and `derCollab` whose DER encoding is libsecp256k1's
(`derEncode`: each integer trimmed of the leading zero bytes it does not need).
-/

namespace WallyScript

/-- A byte string. -/
abbrev Bytes := List UInt8

/-- The return codes of `wally_core.h`: `WALLY_OK`, `WALLY_ERROR`, `WALLY_EINVAL` and
`WALLY_ENOMEM`. -/
inductive Ret
  | ok
  | error
  | einval
  | enomem
  deriving DecidableEq, Repr

/-- What a call that fills caller memory hands back: its return code, the value it stored
through `size_t *written`, and the caller's buffer afterwards. -/
structure Outcome where
  ret : Ret
  written : Nat
  mem : Bytes
  deriving DecidableEq, Repr

/-! ### Stores -/

/-- `memcpy(mem + off, src, src.length)`, and a run of `*p++ = b` stores: `src` laid over `mem`
from offset `off`. -/
def Bytes.write (mem : Bytes) (off : Nat) (src : Bytes) : Bytes :=
  mem.take off ++ src ++ mem.drop (off + src.length)

/-- The outcome of a call that keeps the two-phase sizing contract with the image `img`, writing
through `mem + p` with the capacity `len`: it answers `img`'s length, and stores `img` only when
the capacity holds it. -/
def Outcome.sizedAt (img mem : Bytes) (p len : Nat) : Outcome :=
  ⟨.ok, img.length, if len < img.length then mem else mem.write p img⟩

/-- `Outcome.sizedAt` for a call handed the whole buffer `mem`. -/
def Outcome.sized (img mem : Bytes) : Outcome :=
  .sizedAt img mem 0 mem.length

namespace Bytes

variable {mem src src' : Bytes} {off : Nat}

@[simp] theorem write_nil (mem : Bytes) (off : Nat) : mem.write off [] = mem := by
  simp [write]

theorem length_write (h : off + src.length ≤ mem.length) :
    (mem.write off src).length = mem.length := by
  simp only [write, List.length_append, List.length_take, List.length_drop]
  omega

theorem write_zero : mem.write 0 src = src ++ mem.drop src.length := by
  simp [write]

theorem take_write (h : off ≤ mem.length) :
    (mem.write off src).take off = mem.take off := by
  simp [write, List.take_append_of_le_length, h]

theorem drop_write (h : off ≤ mem.length) :
    (mem.write off src).drop off = src ++ mem.drop (off + src.length) := by
  simp [write, List.drop_append_eq_append_drop, h]

/-- Two stores at adjacent offsets are one store of the concatenation. -/
theorem write_write : (mem.write off src).write (off + src.length) src' = mem.write off (src ++ src') := by
  by_cases h : off ≤ mem.length
  · have hA : (mem.take off ++ src).length = off + src.length := by simp [h]
    simp only [write, List.length_append]
    rw [List.take_left' hA, ← Nat.add_assoc, ← List.drop_drop, List.drop_left' hA, List.drop_drop]
    simp [Nat.add_comm]
  · -- past the end, both sides append to `mem`
    have hm : mem.take off = mem := List.take_of_length_le (by omega)
    have hd : ∀ k, off ≤ k → mem.drop k = [] := fun k hk => List.drop_eq_nil_of_le (by omega)
    have hl : (mem ++ src).length ≤ off + src.length := by simp; omega
    simp only [write, hm, hd _ (Nat.le_add_right _ _), List.append_nil, List.take_of_length_le hl,
      List.drop_eq_nil_of_le (Nat.le_add_right_of_le hl), List.append_assoc]

/-- A store followed by a store just before it is one store of the concatenation. -/
theorem write_write_before {q : Nat} (hq : off + src.length = q) (h : q ≤ mem.length) :
    (mem.write q src').write off src = mem.write off (src ++ src') := by
  subst hq
  simp only [write, List.length_append, List.append_assoc]
  rw [List.take_append_of_le_length (by simp; omega), List.take_take, Nat.min_eq_left (by omega),
    List.drop_append_of_le_length (by simp; omega)]
  simp [List.drop_drop, List.drop_take, Nat.add_assoc]

theorem take_write_zero : (mem.write 0 src).take src.length = src := by
  rw [write_zero, List.take_left]

/-! ### Reads at fixed offsets

The matchers read `bytes[i]` at fixed offsets; these lemmas turn such reads back into the shape
of the buffer. -/

theorem drop_eq_getD_cons {s : Bytes} {k : Nat} (h : k < s.length) :
    s.drop k = s.getD k 0 :: s.drop (k + 1) := by
  rw [List.getD_eq_getElem _ _ h]; exact List.drop_eq_getElem_cons h

theorem drop_eq_take_append (s : Bytes) (k n : Nat) : s.drop k = (s.drop k).take n ++ s.drop (k + n) := by
  rw [← List.drop_drop, List.take_append_drop]

theorem getD_drop (s : Bytes) (k i : Nat) : (s.drop k).getD i 0 = s.getD (k + i) 0 := by
  simp [List.getD_eq_getElem?_getD]

theorem getD_append_of_eq {pre X : Bytes} {i n : Nat} (h : pre.length + i = n) :
    (pre ++ X).getD n 0 = X.getD i 0 := by
  rw [List.getD_append_right _ _ _ _ (by omega)]; congr 1; omega

theorem take_four_eq {s : Bytes} (h : 4 ≤ s.length) :
    s.take 4 = [s.getD 0 0, s.getD 1 0, s.getD 2 0, s.getD 3 0] := by
  obtain _ | ⟨a, _ | ⟨b, _ | ⟨c, _ | ⟨d, r⟩⟩⟩⟩ := s <;> simp at h ⊢

/-- A buffer that holds the bytes of `pre` at its front begins with `pre`. -/
theorem eq_append_of_getD {s pre : Bytes} (hle : pre.length ≤ s.length)
    (h : ∀ i < pre.length, s.getD i 0 = pre.getD i 0) : s = pre ++ s.drop pre.length := by
  induction pre generalizing s with
  | nil => rfl
  | cons x pre ih =>
    obtain _ | ⟨y, s⟩ := s
    · simp at hle
    have hx : y = x := by simpa using h 0 (by simp)
    have hs := ih (s := s) (by simpa using hle) fun i hi => by
      simpa using h (i + 1) (by simpa using hi)
    rw [hx, List.cons_append, List.length_cons, List.drop_succ_cons, ← hs]

/-- **A fixed template.** A buffer of the template's length that holds `pre` at its front and
`post` at its end is `pre`, the `n` bytes between, and `post`. -/
theorem eq_frame {s pre post : Bytes} {n : Nat} (hl : s.length = pre.length + n + post.length)
    (hpre : ∀ i < pre.length, s.getD i 0 = pre.getD i 0)
    (hpost : ∀ i < post.length, s.getD (pre.length + n + i) 0 = post.getD i 0) :
    s = pre ++ (s.drop pre.length).take n ++ post := by
  have hd : s.drop (pre.length + n) = post := by
    have h := @eq_append_of_getD (s.drop (pre.length + n)) post (by simp; omega) fun i hi => by
      rw [getD_drop]; exact hpost i hi
    have hnil : (s.drop (pre.length + n)).drop post.length = [] :=
      List.drop_eq_nil_of_le (by simp; omega)
    rwa [hnil, List.append_nil] at h
  conv_lhs => rw [eq_append_of_getD (by omega) hpre, drop_eq_take_append s pre.length n, hd]
  rw [List.append_assoc]

/-- The `n` fields of `size` bytes at the front of `bytes`, the `bytes + i * size` of a loop over
`i < n`. -/
def chunks (bytes : Bytes) (size : Nat) : Nat → List Bytes
  | 0 => []
  | n + 1 => bytes.take size :: chunks (bytes.drop size) size n

@[simp] theorem length_chunks (bytes : Bytes) (size n : Nat) : (bytes.chunks size n).length = n := by
  induction n generalizing bytes with
  | zero => rfl
  | succ n ih => simp [chunks, ih]

theorem length_of_mem_chunks {bytes : Bytes} {size n : Nat} (h : n * size ≤ bytes.length)
    {k : Bytes} (hk : k ∈ bytes.chunks size n) : k.length = size := by
  induction n generalizing bytes with
  | zero => simp [chunks] at hk
  | succ n ih =>
    rw [Nat.succ_mul] at h
    rcases List.mem_cons.mp hk with rfl | hk
    · simp; omega
    · exact ih (by simp; omega) hk

/-- Fields of `size` bytes laid end to end read back as themselves. -/
theorem chunks_flatten {keys : List Bytes} {size : Nat} (h : ∀ k ∈ keys, k.length = size) :
    chunks keys.flatten size keys.length = keys := by
  induction keys with
  | nil => rfl
  | cons k ks ih =>
    have hk := h k (List.mem_cons_self _ _)
    rw [List.flatten_cons, List.length_cons, chunks, ← hk, List.take_left, List.drop_left, hk,
      ih fun x hx => h x (List.mem_cons_of_mem _ hx)]

end Bytes

/-! ### Bytes as numbers -/

@[simp] theorem toNat_ofNat_byte (n : Nat) : (UInt8.ofNat n).toNat = n % 256 := rfl

@[simp] theorem uint8_size : UInt8.size = 256 := rfl

theorem byte_toNat_lt (b : UInt8) : b.toNat < 256 := b.toNat_lt_size

theorem byte_eq_iff {a b : UInt8} : a = b ↔ a.toNat = b.toNat :=
  ⟨congrArg _, UInt8.toNat.inj⟩

@[simp] theorem ofNat_toNat_byte (b : UInt8) : UInt8.ofNat b.toNat = b :=
  byte_eq_iff.mpr (by simpa using Nat.mod_eq_of_lt (byte_toNat_lt b))

/-- `uint16_to_le_bytes`, `uint32_to_le_bytes`, `uint64_to_le_bytes`, and the
`cpu_to_le16`/`cpu_to_le32` length fields: the `k` low bytes of `n`, least significant first. -/
def leBytes : Nat → Nat → Bytes
  | 0, _ => []
  | k + 1, n => UInt8.ofNat n :: leBytes k (n / 256)

/-- `le16_to_cpu`, `le32_to_cpu`: the value of little-endian bytes. -/
def leValue : Bytes → Nat
  | [] => 0
  | b :: bs => b.toNat + 256 * leValue bs

@[simp] theorem leBytes_zero (n : Nat) : leBytes 0 n = [] := rfl

theorem leBytes_succ (k n : Nat) : leBytes (k + 1) n = UInt8.ofNat n :: leBytes k (n / 256) :=
  rfl

@[simp] theorem leValue_nil : leValue [] = 0 := rfl

@[simp] theorem leValue_cons (b : UInt8) (bs : Bytes) : leValue (b :: bs) = b.toNat + 256 * leValue bs :=
  rfl

@[simp] theorem length_leBytes (k n : Nat) : (leBytes k n).length = k := by
  induction k generalizing n <;> simp [leBytes_succ, *]

@[simp] theorem leValue_leBytes (k n : Nat) : leValue (leBytes k n) = n % 256 ^ k := by
  induction k generalizing n with
  | zero => simp [Nat.mod_one]
  | succ k ih => rw [Nat.pow_succ', Nat.mod_mul]; simp [leBytes_succ, ih]

theorem leValue_lt (bs : Bytes) : leValue bs < 256 ^ bs.length := by
  induction bs with
  | nil => simp
  | cons b bs ih => simp [Nat.pow_succ]; have := byte_toNat_lt b; omega

theorem leBytes_leValue (bs : Bytes) : leBytes bs.length (leValue bs) = bs := by
  induction bs with
  | nil => rfl
  | cons b bs ih =>
    have hb := byte_toNat_lt b
    simp only [List.length_cons, leBytes_succ, leValue_cons]
    rw [show (b.toNat + 256 * leValue bs) / 256 = leValue bs by omega, ih]
    simp [byte_eq_iff, Nat.add_mul_mod_self_left, Nat.mod_eq_of_lt hb]

theorem leValue_append (xs ys : Bytes) : leValue (xs ++ ys) = leValue xs + 256 ^ xs.length * leValue ys := by
  induction xs with
  | nil => simp
  | cons x xs ih => simp [ih, Nat.pow_succ, Nat.mul_add, Nat.add_assoc, Nat.mul_assoc, Nat.mul_comm]

/-- Little-endian bytes of a value that fits are the value's only `k`-byte form. -/
theorem leBytes_inj {k m n : Nat} (hm : m < 256 ^ k) (hn : n < 256 ^ k)
    (h : leBytes k m = leBytes k n) : m = n := by
  have := congrArg leValue h
  rwa [leValue_leBytes, leValue_leBytes, Nat.mod_eq_of_lt hm, Nat.mod_eq_of_lt hn] at this

/-- `b(n) | b(n - 1) | ... | b(1)` with `b(i) = bytes[i] << ((i - 1) * 8)`: the value of
`bytes[1..n]` as `varint_from_bytes` and `scriptint_from_bytes` assemble it. -/
def orShiftedBytes (bytes : Bytes) : Nat → Nat
  | 0 => 0
  | n + 1 => ((bytes.getD (n + 1) 0).toNat <<< (n * 8)) ||| orShiftedBytes bytes n

theorem two_pow_mul_eight (n : Nat) : 2 ^ (n * 8) = 256 ^ n := by
  rw [Nat.mul_comm, Nat.pow_mul]

/-- The or of disjoint shifted bytes is their little-endian value, bytes past the end of the buffer
reading as zero. -/
theorem orShiftedBytes_eq_leValue (bytes : Bytes) (n : Nat) :
    orShiftedBytes bytes n = leValue ((bytes.drop 1).take n) := by
  obtain _ | ⟨b, l⟩ := bytes
  · induction n <;> simp [orShiftedBytes, *]
  induction n with
  | zero => rfl
  | succ n ih =>
    have hlt : leValue (l.take n) < 2 ^ (n * 8) := by
      rw [two_pow_mul_eight]
      exact lt_of_lt_of_le (leValue_lt _) (Nat.pow_le_pow_right (by decide) (List.length_take_le _ _))
    simp only [orShiftedBytes, List.getD_cons_succ, List.drop_succ_cons, List.drop_zero] at ih ⊢
    rw [ih, Nat.shiftLeft_eq, Nat.mul_comm, ← Nat.mul_add_lt_is_or hlt, two_pow_mul_eight]
    rcases Nat.lt_or_ge n l.length with hn | hn
    · rw [List.take_succ, List.getElem?_eq_getElem hn, leValue_append]
      simp [List.getElem?_eq_getElem hn, Nat.min_eq_left hn.le, Nat.add_comm]
    · rw [List.take_of_length_le hn, List.take_of_length_le (by omega)]
      simp [List.getElem?_eq_none hn]

/-! ### Opcodes and lengths -/

/-- `OP_0`. -/
def op0 : UInt8 := 0x00

/-- `OP_PUSHDATA1`. -/
def opPushdata1 : UInt8 := 0x4c

/-- `OP_PUSHDATA2`. -/
def opPushdata2 : UInt8 := 0x4d

/-- `OP_PUSHDATA4`. -/
def opPushdata4 : UInt8 := 0x4e

/-- `OP_1`. -/
def op1 : UInt8 := 0x51

/-- `OP_16`. -/
def op16 : UInt8 := 0x60

/-- `OP_IF`. -/
def opIf : UInt8 := 0x63

/-- `OP_NOTIF`. -/
def opNotif : UInt8 := 0x64

/-- `OP_ELSE`. -/
def opElse : UInt8 := 0x67

/-- `OP_ENDIF`. -/
def opEndif : UInt8 := 0x68

/-- `OP_RETURN`. -/
def opReturn : UInt8 := 0x6a

/-- `OP_IFDUP`. -/
def opIfdup : UInt8 := 0x73

/-- `OP_DEPTH`. -/
def opDepth : UInt8 := 0x74

/-- `OP_DROP`. -/
def opDrop : UInt8 := 0x75

/-- `OP_DUP`. -/
def opDup : UInt8 := 0x76

/-- `OP_EQUAL`. -/
def opEqual : UInt8 := 0x87

/-- `OP_EQUALVERIFY`. -/
def opEqualverify : UInt8 := 0x88

/-- `OP_1SUB`. -/
def op1sub : UInt8 := 0x8c

/-- `OP_HASH160`. -/
def opHash160 : UInt8 := 0xa9

/-- `OP_CHECKSIG`. -/
def opChecksig : UInt8 := 0xac

/-- `OP_CHECKSIGVERIFY`. -/
def opChecksigverify : UInt8 := 0xad

/-- `OP_CHECKMULTISIG`. -/
def opCheckmultisig : UInt8 := 0xae

/-- `OP_CHECKSEQUENCEVERIFY`. -/
def opChecksequenceverify : UInt8 := 0xb2

/-- `EC_PUBLIC_KEY_LEN`: a compressed public key. -/
def ecPublicKeyLen : Nat := 33

/-- `EC_PUBLIC_KEY_UNCOMPRESSED_LEN`. -/
def ecPublicKeyUncompressedLen : Nat := 65

/-- `EC_XONLY_PUBLIC_KEY_LEN`. -/
def ecXonlyPublicKeyLen : Nat := 32

/-- `EC_SIGNATURE_LEN`: a compact signature. -/
def ecSignatureLen : Nat := 64

/-- `EC_SIGNATURE_DER_MAX_LEN`. -/
def ecSignatureDerMaxLen : Nat := 72

/-- `HASH160_LEN`. -/
def hash160Len : Nat := 20

/-- `SHA256_LEN`. -/
def sha256Len : Nat := 32

/-- `is_pk_len`. -/
def isPkLen (bytesLen : Nat) : Bool :=
  bytesLen = ecPublicKeyLen || bytesLen = ecPublicKeyUncompressedLen

/-! ### Collaborators -/

/-- The external collaborators of the spec's section 6, with what the code relies on of each.
A secp256k1 point (`secp256k1_pubkey`) is its opaque 64-byte form, compared by `memcmp`. -/
structure Collab where
  /-- `wally_hash160`. -/
  hash160 : Bytes → Bytes
  hash160_length : ∀ b, (hash160 b).length = hash160Len
  /-- `wally_sha256`. -/
  sha256 : Bytes → Bytes
  sha256_length : ∀ b, (sha256 b).length = sha256Len
  /-- `wally_ec_sig_to_der`: the DER form of a compact signature, `none` when libsecp256k1
  rejects it (the call then returns `WALLY_EINVAL`). -/
  sigToDer : Bytes → Option Bytes
  sigToDer_length : ∀ s d, sigToDer s = some d → 8 ≤ d.length ∧ d.length ≤ ecSignatureDerMaxLen
  /-- `wally_ec_public_key_bip341_tweak` with no merkle root: the tweaked compressed key. -/
  bip341Tweak : Bytes → UInt32 → Except Ret Bytes
  bip341Tweak_length : ∀ k f t, bip341Tweak k f = .ok t → t.length = ecPublicKeyLen
  bip341Tweak_error : ∀ k f e, bip341Tweak k f = .error e → e ≠ .ok
  /-- `wally_hmac_sha256(key, msg)`. -/
  hmacSha256 : Bytes → Bytes → Bytes
  /-- `pubkey_parse`. -/
  pubkeyParse : Bytes → Option Bytes
  /-- `pubkey_tweak_add`. -/
  pubkeyTweakAdd : Bytes → Bytes → Option Bytes
  /-- `pubkey_serialize` with `PUBKEY_COMPRESSED`. -/
  pubkeySerialize : Bytes → Option Bytes
  pubkeySerialize_length : ∀ p s, pubkeySerialize p = some s → s.length = ecPublicKeyLen
  /-- `pubkey_create`. -/
  pubkeyCreate : Bytes → Option Bytes
  /-- `pubkey_negate`. -/
  pubkeyNegate : Bytes → Option Bytes
  /-- `pubkey_combine` of two points. -/
  pubkeyCombine : Bytes → Bytes → Option Bytes

/-- A collaborator with fixed answers, to run the model on concrete inputs: all-zero hashes, a
71-byte DER form for every signature (a stand-in; `derCollab` encodes as libsecp256k1 does), and
points handed back as given. -/
def sampleCollab : Collab where
  hash160 _ := List.replicate hash160Len 0
  hash160_length _ := List.length_replicate _ _
  sha256 _ := List.replicate sha256Len 0
  sha256_length _ := List.length_replicate _ _
  sigToDer _ := some (List.replicate 71 0)
  sigToDer_length _ _ h := by cases h; decide
  bip341Tweak _ _ := .ok (List.replicate ecPublicKeyLen 2)
  bip341Tweak_length _ _ _ h := by cases h; exact List.length_replicate _ _
  bip341Tweak_error _ _ _ h := by cases h
  hmacSha256 _ _ := List.replicate sha256Len 0
  pubkeyParse k := some k
  pubkeyTweakAdd p _ := some p
  pubkeySerialize _ := some (List.replicate ecPublicKeyLen 2)
  pubkeySerialize_length _ _ h := by cases h; exact List.length_replicate _ _
  pubkeyCreate k := some k
  pubkeyNegate p := some p
  pubkeyCombine p _ := some p

/-- `sampleCollab` with points that pass the sanity check of the peg-in tweak: tweaking a key,
and combining with a point, give the tweak's own point. -/
def tweakCollab : Collab :=
  { sampleCollab with pubkeyTweakAdd := fun _ t => some t, pubkeyCombine := fun _ t => some t }

/-! ### DER signatures as libsecp256k1 writes them -/

/-- The order `n` of the secp256k1 group: `secp256k1_ecdsa_signature_parse_compact` rejects a
compact signature whose `r` or `s` is not below it. -/
def secp256k1Order : Nat :=
  0xFFFFFFFFFFFFFFFFFFFFFFFFFFFFFFFEBAAEDCE6AF48A03BBFD25E8CD0364141

/-- One integer of a DER signature as `secp256k1_ecdsa_sig_serialize` trims it: from the 33 bytes
`0x00 ‖ x`, a leading zero byte goes while the byte after it is below `0x80`, down to one byte. -/
def derTrim : Bytes → Bytes
  | a :: b :: rest => if a = 0 ∧ b < 0x80 then derTrim (b :: rest) else a :: b :: rest
  | l => l

/-- `secp256k1_ecdsa_sig_serialize` on the compact signature `r ‖ s`: `30 L 02 Lr r 02 Ls s`. -/
def derEncode (sig : Bytes) : Bytes :=
  let r := derTrim (0 :: sig.take 32)
  let s := derTrim (0 :: sig.drop 32)
  [0x30, UInt8.ofNat (4 + r.length + s.length), 0x02, UInt8.ofNat r.length] ++ r ++
    [0x02, UInt8.ofNat s.length] ++ s

/-- `wally_ec_sig_to_der` as libsecp256k1 computes it: a 64-byte signature whose halves, read
big-endian, are below the group order, in DER. -/
def ecSigToDer (sig : Bytes) : Option Bytes :=
  if sig.length = ecSignatureLen ∧ leValue (sig.take 32).reverse < secp256k1Order ∧
      leValue (sig.drop 32).reverse < secp256k1Order then some (derEncode sig)
  else none

/-- Trimming keeps at least one byte and adds none. -/
theorem length_derTrim {l : Bytes} (h : l ≠ []) :
    1 ≤ (derTrim l).length ∧ (derTrim l).length ≤ l.length := by
  induction l using derTrim.induct with
  | case1 a b rest hz ih =>
    rw [derTrim, if_pos hz]
    have := ih (List.cons_ne_nil _ _)
    simp only [List.length_cons] at this ⊢
    omega
  | case2 a b rest hz => rw [derTrim, if_neg hz]; simp
  | case3 l hl =>
    rw [derTrim]
    · exact ⟨List.length_pos.mpr h, le_rfl⟩
    · exact hl

/-- A DER signature of a compact one has 8 to 72 bytes: each integer has 1 to 33. -/
theorem length_derEncode {sig : Bytes} (h : sig.length = ecSignatureLen) :
    8 ≤ (derEncode sig).length ∧ (derEncode sig).length ≤ ecSignatureDerMaxLen := by
  have hr := length_derTrim (List.cons_ne_nil 0 (sig.take 32))
  have hs := length_derTrim (List.cons_ne_nil 0 (sig.drop 32))
  simp only [List.length_cons, List.length_take, List.length_drop, h, ecSignatureLen] at hr hs
  simp only [derEncode, List.length_append, List.length_cons, List.length_nil, ecSignatureDerMaxLen]
  omega

/-- `sampleCollab` with the DER encoding of libsecp256k1, so that a signature's DER form has the
length the library gives it: 8 bytes for the all-zero signature, 70 for one whose halves are
32 bytes that start below `0x80`. -/
def derCollab : Collab :=
  { sampleCollab with
    sigToDer := ecSigToDer
    sigToDer_length := fun s d hd => by
      unfold ecSigToDer at hd
      split_ifs at hd with hs
      cases hd
      exact length_derEncode hs.1 }

end WallyScript
