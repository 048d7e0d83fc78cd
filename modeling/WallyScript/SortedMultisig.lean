import WallyScript.Builders

/-!
# Sorted multisig

With `WALLY_SCRIPT_MULTISIG_SORTED`, `wally_scriptpubkey_multisig_from_bytes` (lines 682–725 of
`script.c`) sorts its copy of the keys with `qsort` and the comparator `pubkey_compare`, a
`memcmp` over `EC_PUBLIC_KEY_LEN` bytes. `qsort` is not stable and the source fixes no algorithm;
what makes the result well defined is that `memcmp` is a total order on keys of one length, so
that exactly one arrangement of a list of keys is sorted. The model sorts with `List.mergeSort`
(`multisigPubkeys`), and this module shows that any other sort would give the same list:

* `pubkeyCompareLe_total`, `pubkeyCompareLe_trans` and `pubkeyCompareLe_antisymm`: `memcmp ≤ 0`
  is a total order on byte strings;
* `mergeSort_pubkeyCompareLe_perm`: the sorted keys depend only on the multiset of keys;
* `multisig_sorted_keys`: the layout the builder stores for a list of 33-byte keys, with the keys
  as given or sorted, and the sorted call unchanged by any reordering of the keys.
-/

namespace WallyScript

/-! ### `memcmp` as an order -/

theorem pubkeyCompareLe_total : ∀ a b : Bytes, (pubkeyCompareLe a b || pubkeyCompareLe b a) = true
  | [], _ => by simp [pubkeyCompareLe]
  | _ :: _, [] => by simp [pubkeyCompareLe]
  | x :: as, y :: bs => by
    have ih := pubkeyCompareLe_total as bs
    simp only [pubkeyCompareLe, Bool.or_eq_true, Bool.and_eq_true, decide_eq_true_eq] at ih ⊢
    rcases Nat.lt_trichotomy x.toNat y.toNat with h | h | h
    · exact .inl (.inl h)
    · rw [← byte_eq_iff] at h
      subst h
      rcases ih with ih | ih
      · exact .inl (.inr ⟨rfl, ih⟩)
      · exact .inr (.inr ⟨rfl, ih⟩)
    · exact .inr (.inl h)

theorem pubkeyCompareLe_trans :
    ∀ a b c : Bytes, pubkeyCompareLe a b = true → pubkeyCompareLe b c = true →
      pubkeyCompareLe a c = true
  | [], _, _, _, _ => rfl
  | _ :: _, [], _, h, _ => by simp [pubkeyCompareLe] at h
  | _ :: _, _ :: _, [], _, h => by simp [pubkeyCompareLe] at h
  | x :: as, y :: bs, z :: cs, h1, h2 => by
    simp only [pubkeyCompareLe, Bool.or_eq_true, Bool.and_eq_true, decide_eq_true_eq] at h1 h2 ⊢
    rcases h1 with h1 | ⟨rfl, h1⟩ <;> rcases h2 with h2 | ⟨rfl, h2⟩
    · exact .inl (by omega)
    · exact .inl h1
    · exact .inl h2
    · exact .inr ⟨rfl, pubkeyCompareLe_trans as bs cs h1 h2⟩

theorem pubkeyCompareLe_antisymm :
    ∀ a b : Bytes, pubkeyCompareLe a b = true → pubkeyCompareLe b a = true → a = b
  | [], [], _, _ => rfl
  | [], _ :: _, _, h => by simp [pubkeyCompareLe] at h
  | _ :: _, [], h, _ => by simp [pubkeyCompareLe] at h
  | x :: as, y :: bs, h1, h2 => by
    simp only [pubkeyCompareLe, Bool.or_eq_true, Bool.and_eq_true, decide_eq_true_eq] at h1 h2
    rcases h1 with h1 | ⟨rfl, h1⟩
    · rcases h2 with h2 | ⟨rfl, -⟩ <;> omega
    · rcases h2 with h2 | ⟨-, h2⟩
      · omega
      · rw [pubkeyCompareLe_antisymm as bs h1 h2]

/-! ### The sort -/

/-- The sorted keys are in non-decreasing `memcmp` order. -/
theorem pairwise_mergeSort_pubkeyCompareLe (keys : List Bytes) :
    (keys.mergeSort pubkeyCompareLe).Pairwise (fun a b => pubkeyCompareLe a b = true) :=
  List.sorted_mergeSort pubkeyCompareLe_trans pubkeyCompareLe_total keys

/-- **The sort forgets the order.** Two orders of the same keys sort to the same list. -/
theorem mergeSort_pubkeyCompareLe_perm {keys keys' : List Bytes} (h : keys'.Perm keys) :
    keys'.mergeSort pubkeyCompareLe = keys.mergeSort pubkeyCompareLe :=
  List.Perm.eq_of_sorted (fun a b _ _ => pubkeyCompareLe_antisymm a b)
    (pairwise_mergeSort_pubkeyCompareLe _) (pairwise_mergeSort_pubkeyCompareLe _)
    ((List.mergeSort_perm _ _).trans (h.trans (List.mergeSort_perm _ _).symm))

/-! ### The builder on a list of keys -/

/-- The multisig image, with each key behind its one-byte header `0x21`. -/
theorem multisigImage_eq (threshold : Nat) (keys : List Bytes) :
    multisigImage threshold keys = [valueToOpN threshold] ++
      (keys.map ((0x21 : UInt8) :: ·)).flatten ++ [valueToOpN keys.length, opCheckmultisig] := by
  rw [multisigImage, multisigKeys_eq_flatten]; rfl

theorem length_flatten_keys {keys : List Bytes} {size : Nat} (hk : ∀ k ∈ keys, k.length = size) :
    keys.flatten.length = keys.length * size := by
  rw [List.length_flatten, List.map_congr_left hk, List.map_const', List.sum_replicate, smul_eq_mul]

/-- The keys the builder reads from `keys` laid end to end: `keys`, sorted with the flag. -/
theorem multisigPubkeys_flatten {keys : List Bytes} (hk : ∀ k ∈ keys, k.length = ecPublicKeyLen)
    (flags : UInt32) :
    multisigPubkeys keys.flatten flags = if flags &&& wallyScriptMultisigSorted ≠ 0 then
      keys.mergeSort pubkeyCompareLe else keys := by
  have hl := length_flatten_keys hk
  rw [multisigPubkeys, hl, Nat.mul_div_cancel _ (by decide), Bytes.chunks_flatten hk]

/-- On a list of 1 to 15 keys of 33 bytes, a threshold from 1 to their number and a buffer that
holds the script, the builder stores the image of its keys and answers `3 + 34 n`. -/
theorem wallyScriptpubkeyMultisigFromBytes_flatten {keys : List Bytes}
    (hk : ∀ k ∈ keys, k.length = ecPublicKeyLen) (hn1 : 1 ≤ keys.length) (hn15 : keys.length ≤ 15)
    {threshold : Nat} (ht1 : 1 ≤ threshold) (htn : threshold ≤ keys.length) {flags : UInt32}
    (hf : flags &&& ~~~wallyScriptMultisigSorted = 0) {out : Bytes}
    (hcap : 3 + 34 * keys.length ≤ out.length) :
    wallyScriptpubkeyMultisigFromBytes keys.flatten threshold flags out =
      ⟨.ok, 3 + 34 * keys.length, out.write 0 (multisigImage threshold
        (multisigPubkeys keys.flatten flags))⟩ := by
  have hl := length_flatten_keys hk
  have hn : keys.flatten.length / ecPublicKeyLen = keys.length := by
    rw [hl, Nat.mul_div_cancel _ (by decide)]
  have hin : MultisigInput keys.flatten threshold flags :=
    ⟨by rw [hl, Nat.mul_mod_left], by omega, by omega, ht1, by omega, hf⟩
  have himg : (multisigImage threshold (multisigPubkeys keys.flatten flags)).length =
      3 + 34 * keys.length := by
    rw [length_multisigImage fun _ => length_of_mem_multisigPubkeys, length_multisigPubkeys, hn]
    simp only [ecPublicKeyLen]; omega
  rw [wallyScriptpubkeyMultisigFromBytes_eq hin (by rintro rfl; simp at hcap), Outcome.sized,
    Outcome.sizedAt, himg, if_neg (by omega)]

/-- **Sorted multisig.** On 1 to 15 keys of 33 bytes, a threshold `m` from 1 to their number `n`
and a buffer of at least `3 + 34 n` bytes, the builder stores `OP_m`, each key behind the byte
`0x21`, `OP_n` and `OP_CHECKMULTISIG`, and answers `3 + 34 n`. Without
`WALLY_SCRIPT_MULTISIG_SORTED` the keys are the caller's, in the caller's order; with it they are
the caller's keys in non-decreasing `memcmp` order, and every order of the same keys gives the
same call. -/
theorem multisig_sorted_keys {keys : List Bytes} (hk : ∀ k ∈ keys, k.length = ecPublicKeyLen)
    (hn1 : 1 ≤ keys.length) (hn15 : keys.length ≤ 15) {threshold : Nat} (ht1 : 1 ≤ threshold)
    (htn : threshold ≤ keys.length) {out : Bytes} (hcap : 3 + 34 * keys.length ≤ out.length) :
    wallyScriptpubkeyMultisigFromBytes keys.flatten threshold 0 out =
      ⟨.ok, 3 + 34 * keys.length, out.write 0 ([valueToOpN threshold] ++
        (keys.map ((0x21 : UInt8) :: ·)).flatten ++ [valueToOpN keys.length, opCheckmultisig])⟩ ∧
    ∃ sorted : List Bytes, sorted.Perm keys ∧
      sorted.Pairwise (fun a b => pubkeyCompareLe a b = true) ∧
      wallyScriptpubkeyMultisigFromBytes keys.flatten threshold wallyScriptMultisigSorted out =
        ⟨.ok, 3 + 34 * keys.length, out.write 0 ([valueToOpN threshold] ++
          (sorted.map ((0x21 : UInt8) :: ·)).flatten ++
            [valueToOpN keys.length, opCheckmultisig])⟩ ∧
      ∀ keys' : List Bytes, keys'.Perm keys →
        wallyScriptpubkeyMultisigFromBytes keys'.flatten threshold wallyScriptMultisigSorted out =
          wallyScriptpubkeyMultisigFromBytes keys.flatten threshold wallyScriptMultisigSorted out := by
  -- sorted, every permutation of the keys gives the image of the one sorted list
  have hsort : ∀ {ks : List Bytes}, ks.Perm keys →
      wallyScriptpubkeyMultisigFromBytes ks.flatten threshold wallyScriptMultisigSorted out =
        ⟨.ok, 3 + 34 * keys.length, out.write 0 (multisigImage threshold
          (keys.mergeSort pubkeyCompareLe))⟩ := by
    intro ks hp
    have hks : ∀ k ∈ ks, k.length = ecPublicKeyLen := fun k hm => hk k (hp.subset hm)
    rw [← hp.length_eq] at hn1 hn15 htn hcap ⊢
    rw [wallyScriptpubkeyMultisigFromBytes_flatten hks hn1 hn15 ht1 htn (by decide) hcap,
      multisigPubkeys_flatten hks, if_pos (by decide), mergeSort_pubkeyCompareLe_perm hp]
  refine ⟨?_, keys.mergeSort pubkeyCompareLe, List.mergeSort_perm _ _,
    pairwise_mergeSort_pubkeyCompareLe _, ?_, fun keys' hp => by rw [hsort hp, hsort (.refl _)]⟩
  · rw [wallyScriptpubkeyMultisigFromBytes_flatten hk hn1 hn15 ht1 htn (by decide) hcap,
      multisigPubkeys_flatten hk, if_neg (by decide), multisigImage_eq]
  · rw [hsort (.refl _), multisigImage_eq, List.length_mergeSort]

/-- Two 33-byte keys, the first above the second in `memcmp` order. -/
def twoKeys : List Bytes := [List.replicate 33 3, List.replicate 33 2]

/-- Two keys given in descending order, into a buffer of 71 bytes. -/
theorem multisig_sorted_keys_two :
    (∀ k ∈ twoKeys, k.length = ecPublicKeyLen) ∧ 1 ≤ twoKeys.length ∧ twoKeys.length ≤ 15 ∧
    1 ≤ 1 ∧ 1 ≤ twoKeys.length ∧ 3 + 34 * twoKeys.length ≤ (List.replicate 71 (0 : UInt8)).length ∧
    (wallyScriptpubkeyMultisigFromBytes twoKeys.flatten 1 0 (List.replicate 71 0) =
      ⟨.ok, 3 + 34 * twoKeys.length, Bytes.write (List.replicate 71 0) 0 ([valueToOpN 1] ++
        (twoKeys.map ((0x21 : UInt8) :: ·)).flatten ++
          [valueToOpN twoKeys.length, opCheckmultisig])⟩ ∧
    ∃ sorted : List Bytes, sorted.Perm twoKeys ∧
      sorted.Pairwise (fun a b => pubkeyCompareLe a b = true) ∧
      wallyScriptpubkeyMultisigFromBytes twoKeys.flatten 1 wallyScriptMultisigSorted
          (List.replicate 71 0) =
        ⟨.ok, 3 + 34 * twoKeys.length, Bytes.write (List.replicate 71 0) 0 ([valueToOpN 1] ++
          (sorted.map ((0x21 : UInt8) :: ·)).flatten ++
            [valueToOpN twoKeys.length, opCheckmultisig])⟩ ∧
      ∀ keys' : List Bytes, keys'.Perm twoKeys →
        wallyScriptpubkeyMultisigFromBytes keys'.flatten 1 wallyScriptMultisigSorted
            (List.replicate 71 0) =
          wallyScriptpubkeyMultisigFromBytes twoKeys.flatten 1 wallyScriptMultisigSorted
            (List.replicate 71 0)) :=
  ⟨by decide, by decide, by decide, le_rfl, by decide, by decide,
    multisig_sorted_keys (by decide) (by decide) (by decide) le_rfl (by decide) (by decide)⟩

end WallyScript
