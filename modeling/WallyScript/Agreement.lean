import WallyScript.Builders

/-!
# Builders and classifier agree

`wally_scriptpubkey_get_type` (lines 473–534 of `script.c`) run on what the builders of
`WallyScript.Builders` store. Each image is classified from its first bytes and its length: no
matcher ahead of the builder's own accepts it, and the builder's own does.

* `Stores build img`: on every buffer that holds `img` the call returns `WALLY_OK`, reports its
  size and stores it. `Agrees build Valid img P`: a call that succeeds into a buffer that holds
  its report had a valid input and reported `img`'s size, and on a valid input the builder stores
  `img`, of which `P` holds.
* `getType_builders` is the agreement: every scriptPubkey builder stores an image of its own type
  on every input it builds from, a witness program without `WALLY_SCRIPT_AS_PUSH` one of the type
  of its version and program length, and both CSV builders a script whose delay
  `wally_scriptpubkey_csv_blocks_from_csv_2of2_then_1` reads back.
* `csv_classifiers_accept` goes the other way for the CSV templates: what the classifier accepts
  is the template around any delay push of a number in `[17, 65535]`, and what the builder stores
  for its keys and delay exactly when that push is the minimal encoding. Template A's matcher
  checks only a lower bound on what follows the delay (line 418, where the optimised one checks
  the exact end at line 453); the theorem is about the scripts that end at the template.
  `csv_nonminimal_delay` is a script the classifier accepts that no builder stores.
-/

namespace WallyScript

/-! ### Matchers a short script or a single push fails -/

theorem scriptpubkeyIsCsv2of2Then1_of_length {s : Bytes} (h : s.length < 76) :
    scriptpubkeyIsCsv2of2Then1 s = none := by
  unfold scriptpubkeyIsCsv2of2Then1
  dsimp only
  rw [if_pos (Or.inl (by unfold ecPublicKeyLen; omega))]

theorem scriptpubkeyIsCsv2of2Then1Opt_of_length {s : Bytes} (h : s.length < 73) :
    scriptpubkeyIsCsv2of2Then1Opt s = none := by
  unfold scriptpubkeyIsCsv2of2Then1Opt
  dsimp only
  rw [if_pos (Or.inl (by unfold ecPublicKeyLen; omega))]

/-- A push of more than one byte covers the rest of the script, so no key pushes follow it. -/
theorem multisigLoop_pushScript {q : Bytes} (h2 : 2 ≤ q.length) (hq : q.length < 2 ^ 32)
    (i : Nat) : multisigLoop i (pushScript q) = false := by
  have hl := length_pushScript q
  cases i with
  | zero =>
    simp only [multisigLoop, hl, scriptGetPushSize, calcPushOpcodeSize, decide_eq_false_iff_not]
    split_ifs <;> omega
  | succ i =>
    have hg := getPushSize_pushScript hq []
    rw [List.append_nil] at hg
    simp only [multisigLoop, hg, hl, scriptGetPushSize, if_true, Bool.false_eq_true, if_false]
    simp

theorem scriptpubkeyIsMultisig_cons_pushScript (b : UInt8) {q : Bytes} (h2 : 2 ≤ q.length)
    (hq : q.length < 2 ^ 32) : scriptpubkeyIsMultisig (b :: pushScript q) = false := by
  unfold scriptpubkeyIsMultisig
  split_ifs
  · rfl
  · split
    · simp [multisigLoop_pushScript h2 hq]
    · rfl

theorem valueToOpN_toNat_le {v : Nat} (h : v ≤ 16) :
    (valueToOpN v).toNat = if v = 0 then 0 else 80 + v := by
  split_ifs with h0
  · subst h0; rfl
  · exact valueToOpN_toNat (by omega) h

theorem valueToOpN_ne {v : Nat} (hv : v ≤ 16) {b : UInt8} (hb : 96 < b.toNat) : valueToOpN v ≠ b := by
  intro h
  have := congrArg UInt8.toNat h
  rw [valueToOpN_toNat_le hv] at this
  split_ifs at this <;> omega

/-! ### Fixed templates -/

theorem getType_p2pkhImage {h : Bytes} (hl : h.length = hash160Len) :
    wallyScriptpubkeyGetType (p2pkhImage h) = (.ok, .p2pkh) := by
  have hs : p2pkhImage h = [opDup, opHash160, 20] ++ h ++ [opEqualverify, opChecksig] := by
    simp [p2pkhImage, pushScript, pushOpcode, hl, hash160Len]
  have hlen : (p2pkhImage h).length = 25 := by simp [hs, hl, hash160Len]
  have hm := scriptpubkeyIsMultisig_of_head (s := p2pkhImage h) (by
    rw [hs]; exact scriptIsOpN_of_gt (by decide : 96 < opDup.toNat))
  have hA := scriptpubkeyIsCsv2of2Then1_of_length (s := p2pkhImage h) (by omega)
  have hO := scriptpubkeyIsCsv2of2Then1Opt_of_length (s := p2pkhImage h) (by omega)
  have h23 : (p2pkhImage h).getD 23 0 = opEqualverify := by
    rw [hs, Bytes.getD_append_of_eq (i := 0) (by simp [hl, hash160Len])]; rfl
  have h24 : (p2pkhImage h).getD 24 0 = opChecksig := by
    rw [hs, Bytes.getD_append_of_eq (i := 1) (by simp [hl, hash160Len])]; rfl
  have hR := scriptpubkeyIsOpReturn_of_head (s := p2pkhImage h) (by
    rw [hs]; exact (by decide : opDup ≠ opReturn))
  simp only [wallyScriptpubkeyGetType, hm, hA, hO, hR, scriptpubkeyIsP2pkh, hlen, h23, h24]
  rw [hs]
  simp [scriptpubkeyP2pkhLen]

theorem getType_p2shImage {h : Bytes} (hl : h.length = hash160Len) :
    wallyScriptpubkeyGetType (p2shImage h) = (.ok, .p2sh) := by
  have hs : p2shImage h = [opHash160, 20] ++ h ++ [opEqual] := by
    simp [p2shImage, pushScript, pushOpcode, hl, hash160Len]
  have hlen : (p2shImage h).length = 23 := by simp [hs, hl, hash160Len]
  have hm := scriptpubkeyIsMultisig_of_head (s := p2shImage h) (by
    rw [hs]; exact scriptIsOpN_of_gt (by decide : 96 < opHash160.toNat))
  have hA := scriptpubkeyIsCsv2of2Then1_of_length (s := p2shImage h) (by omega)
  have hO := scriptpubkeyIsCsv2of2Then1Opt_of_length (s := p2shImage h) (by omega)
  have hR := scriptpubkeyIsOpReturn_of_head (s := p2shImage h) (by
    rw [hs]; exact (by decide : opHash160 ≠ opReturn))
  have h22 : (p2shImage h).getD 22 0 = opEqual := by
    rw [hs, Bytes.getD_append_of_eq (i := 0) (by simp [hl, hash160Len])]; rfl
  simp only [wallyScriptpubkeyGetType, hm, hA, hO, hR, scriptpubkeyIsP2pkh, scriptpubkeyIsP2sh,
    hlen, h22]
  rw [hs]
  simp [scriptpubkeyP2pkhLen, scriptpubkeyP2shLen]

theorem getType_opReturnImage (q : Bytes) :
    wallyScriptpubkeyGetType (opReturnImage q) = (.ok, .opReturn) := by
  simp [wallyScriptpubkeyGetType, opReturnImage, scriptpubkeyIsOpReturn]

/-! ### Multisig images -/

theorem isKeyPush_key {k : Bytes} (hk : k.length = ecPublicKeyLen) :
    IsKeyPush (UInt8.ofNat ecPublicKeyLen :: k) :=
  ⟨.direct, k, by simp [PushForm.Declares, hk, ecPublicKeyLen], by simp [hk, isPkLen],
    by simp [PushForm.header, hk]⟩

/-- **Multisig image.** What the multisig builder stores is a MULTISIG script. -/
theorem getType_multisigImage {threshold : Nat} {keys : List Bytes} (h1 : 1 ≤ threshold)
    (h16 : threshold ≤ 16) (hn1 : 1 ≤ keys.length) (hn16 : keys.length ≤ 16)
    (hk : ∀ k ∈ keys, k.length = ecPublicKeyLen) :
    wallyScriptpubkeyGetType (multisigImage threshold keys) = (.ok, .multisig) := by
  refine getType_eq_multisig_iff.mpr (scriptpubkeyIsMultisig_iff.mpr
    ⟨threshold, keys.map (UInt8.ofNat ecPublicKeyLen :: ·), h1, h16, by simpa using hn1,
      by simpa using hn16, ?_, by simp [multisigImage, multisigKeys_eq_flatten]⟩)
  simp only [List.mem_map]
  rintro _ ⟨k, hm, rfl⟩
  exact isKeyPush_key (hk k hm)

/-! ### CSV images -/

/-- The minimal script number of a delay the builders take is a delay push of at most three
bytes. -/
theorem delayPush_scriptintToBytes {csvBlocks : Nat} (h17 : 17 ≤ csvBlocks)
    (hmax : csvBlocks ≤ 0xffff) :
    DelayPush (scriptintToBytes csvBlocks) ∧ (scriptintToBytes csvBlocks).length ≤ 3 := by
  have h3 : (scriptintToBytes csvBlocks).length ≤ 3 := by
    rw [length_scriptintToBytes]; exact scriptintGetLength_le (by decide) (by simp; omega)
  refine ⟨⟨by omega, ?_, ?_⟩, h3⟩ <;> rw [scriptnumValue_scriptintToBytes] <;> omega

theorem csv2of2Then1Image_eq (bytes : Bytes) (csvBlocks : Nat) :
    csv2of2Then1Image bytes csvBlocks =
      csvScriptA (bytes.take ecPublicKeyLen) ((bytes.drop ecPublicKeyLen).take ecPublicKeyLen)
        (UInt8.ofNat (scriptintToBytes csvBlocks).length :: scriptintToBytes csvBlocks) := by
  simp [csv2of2Then1Image, csvScriptA, length_scriptintToBytes]; rfl

theorem csv2of2Then1OptImage_eq (bytes : Bytes) (csvBlocks : Nat) :
    csv2of2Then1OptImage bytes csvBlocks =
      csvScriptOpt (bytes.take ecPublicKeyLen) ((bytes.drop ecPublicKeyLen).take ecPublicKeyLen)
        (UInt8.ofNat (scriptintToBytes csvBlocks).length :: scriptintToBytes csvBlocks) := by
  simp [csv2of2Then1OptImage, csvScriptOpt, length_scriptintToBytes]; rfl

theorem length_keys_of_csvInput {bytes : Bytes} (hb : bytes.length = 2 * ecPublicKeyLen) :
    (bytes.take ecPublicKeyLen).length = 33 ∧
      ((bytes.drop ecPublicKeyLen).take ecPublicKeyLen).length = 33 := by
  simp [hb, ecPublicKeyLen]

/-- **CSV images, template A.** What the template-A builder stores is classified CSV2OF2_1, and
the delay accessor reads its delay back. -/
theorem classify_csv2of2Then1Image {bytes : Bytes} {csvBlocks : Nat}
    (hb : bytes.length = 2 * ecPublicKeyLen) (h17 : 17 ≤ csvBlocks) (hmax : csvBlocks ≤ 0xffff) :
    wallyScriptpubkeyGetType (csv2of2Then1Image bytes csvBlocks) = (.ok, .csv2of21) ∧
      wallyScriptpubkeyCsvBlocksFromCsv2of2Then1 (csv2of2Then1Image bytes csvBlocks) =
        (.ok, csvBlocks) := by
  obtain ⟨hd, h3⟩ := delayPush_scriptintToBytes h17 hmax
  obtain ⟨hm, hr⟩ := length_keys_of_csvInput hb
  have hA := csvA_complete (t := []) hm hr hd (by simpa using h3)
  rw [List.append_nil, scriptnumValue_scriptintToBytes, ← csv2of2Then1Image_eq] at hA
  refine ⟨getType_eq_csv2of21_iff.mpr (by simp [hA]), ?_⟩
  rw [wallyScriptpubkeyCsvBlocksFromCsv2of2Then1, if_neg (by simp [csv2of2Then1Image]), hA]
  simp

/-- **CSV images, optimised template.** What the optimised builder stores is classified
CSV2OF2_1_OPT, and the delay accessor reads its delay back. -/
theorem classify_csv2of2Then1OptImage {bytes : Bytes} {csvBlocks : Nat}
    (hb : bytes.length = 2 * ecPublicKeyLen) (h17 : 17 ≤ csvBlocks) (hmax : csvBlocks ≤ 0xffff) :
    wallyScriptpubkeyGetType (csv2of2Then1OptImage bytes csvBlocks) = (.ok, .csv2of21Opt) ∧
      wallyScriptpubkeyCsvBlocksFromCsv2of2Then1 (csv2of2Then1OptImage bytes csvBlocks) =
        (.ok, csvBlocks) := by
  obtain ⟨hd, h3⟩ := delayPush_scriptintToBytes h17 hmax
  obtain ⟨hm, hr⟩ := length_keys_of_csvInput hb
  have hO := csvOpt_complete hm hr hd h3
  rw [scriptnumValue_scriptintToBytes, ← csv2of2Then1OptImage_eq] at hO
  have hA : scriptpubkeyIsCsv2of2Then1 (csv2of2Then1OptImage bytes csvBlocks) = none :=
    scriptpubkeyIsCsv2of2Then1_of_head (by simp [csv2of2Then1OptImage]; decide)
  refine ⟨getType_eq_csv2of21Opt_iff.mpr (by simp [hO]), ?_⟩
  rw [wallyScriptpubkeyCsvBlocksFromCsv2of2Then1, if_neg (by simp [csv2of2Then1OptImage]), hA, hO]
  simp

/-! ### Witness programs -/

/-- The type of a witness program, as the scriptPubkey kinds are defined: P2WPKH and P2WSH for
version 0 with a 20- and a 32-byte program, P2TR for version 1 with a 32-byte program. -/
def witnessProgramType (version programLen : Nat) : ScriptType :=
  if version = 0 ∧ programLen = hash160Len then .p2wpkh
  else if version = 0 ∧ programLen = sha256Len then .p2wsh
  else if version = 1 ∧ programLen = sha256Len then .p2tr
  else .unknown

/-- **Witness-program images.** A witness program of a 2- to 40-byte program is classified by
its version and program length alone. -/
theorem getType_witnessProgramImage {version : Nat} {q : Bytes} (hv : version ≤ 16)
    (h2 : 2 ≤ q.length) (h40 : q.length ≤ 40) :
    wallyScriptpubkeyGetType (witnessProgramImage version q) =
      (.ok, witnessProgramType version q.length) := by
  have hm := scriptpubkeyIsMultisig_cons_pushScript (valueToOpN version) h2 (by omega)
  have hs : witnessProgramImage version q = valueToOpN version :: UInt8.ofNat q.length :: q := by
    simp [witnessProgramImage, pushScript, pushOpcode, show q.length < 76 by omega]
  have hA := scriptpubkeyIsCsv2of2Then1_of_length (s := witnessProgramImage version q)
    (by rw [hs]; simp; omega)
  have hO := scriptpubkeyIsCsv2of2Then1Opt_of_length (s := witnessProgramImage version q)
    (by rw [hs]; simp; omega)
  rw [← witnessProgramImage] at hm
  rw [hs] at hm hA hO ⊢
  have hqt : (UInt8.ofNat q.length).toNat = q.length := by rw [toNat_ofNat_byte]; omega
  simp only [wallyScriptpubkeyGetType, hm, hA, hO, List.cons_ne_nil, if_false, Option.isSome_none,
    Bool.false_eq_true, scriptpubkeyIsOpReturn, scriptpubkeyIsP2pkh, scriptpubkeyIsP2sh,
    scriptpubkeyIsP2wpkh, scriptpubkeyIsP2wsh, scriptpubkeyIsP2tr, List.getD_cons_zero,
    List.getD_cons_succ, valueToOpN_ne hv (by decide : 96 < opReturn.toNat),
    valueToOpN_ne hv (by decide : 96 < opDup.toNat), valueToOpN_ne hv (by decide : 96 < opHash160.toNat),
    false_and, and_false, decide_False, List.length_cons]
  have e0 : valueToOpN version = op0 ↔ version = 0 := by
    rw [byte_eq_iff, valueToOpN_toNat_le hv, show op0.toNat = 0 from rfl]; split_ifs <;> omega
  have e1 : valueToOpN version = op1 ↔ version = 1 := by
    rw [byte_eq_iff, valueToOpN_toNat_le hv, op1_toNat]; split_ifs <;> (try rw [false_iff]) <;> omega
  have e20 : UInt8.ofNat q.length = 20 ↔ q.length = 20 := by rw [byte_eq_iff, hqt]; exact Iff.rfl
  have e32 : UInt8.ofNat q.length = 32 ↔ q.length = 32 := by rw [byte_eq_iff, hqt]; exact Iff.rfl
  simp only [e0, e1, e20, e32, decide_eq_true_eq, witnessProgramType,
    scriptpubkeyP2wpkhLen, scriptpubkeyP2wshLen, hash160Len, sha256Len]
  split_ifs <;> first | rfl | omega

/-! ### Builders and classifier agree -/

/-- `build` stores `img`: on every buffer that holds it, the call returns `WALLY_OK`, reports its
size and stores it in front. -/
def Stores (build : Bytes → Outcome) (img : Bytes) : Prop :=
  ∀ out, img.length ≤ out.length →
    (build out).ret = .ok ∧ (build out).written = img.length ∧ (build out).mem.take img.length = img

/-- **A builder agrees with `P` on the inputs `Valid`, with the image `img`.** A call that returns
`WALLY_OK` into a buffer that holds the size it reports had a valid input and reported `img`'s
size; on a valid input the builder stores `img`, and `P` holds of `img`. -/
def Agrees (build : Bytes → Outcome) (Valid : Prop) (img : Bytes) (P : Bytes → Prop) : Prop :=
  (∀ out, (build out).ret = .ok → (build out).written ≤ out.length →
    Valid ∧ (build out).written = img.length) ∧
  (Valid → P img ∧ Stores build img)

/-- A builder that keeps the sizing contract with `img` on every nonempty buffer of a valid
input, and succeeds into a buffer that holds its report only on a valid input, agrees with what
holds of `img`. -/
theorem agrees_of_sized {build : Bytes → Outcome} {Valid : Prop} {img : Bytes}
    {P : Bytes → Prop} (hinv : ∀ out, (build out).ret = .ok → (build out).written ≤ out.length →
      Valid ∧ out ≠ [])
    (heq : Valid → ∀ out, out ≠ [] → build out = .sized img out) (hP : Valid → P img)
    (himg : img ≠ []) : Agrees build Valid img P := by
  refine ⟨fun out hok hw => ?_, fun hv => ⟨hP hv, fun out hfit => ?_⟩⟩
  · obtain ⟨hv, hout⟩ := hinv out hok hw
    exact ⟨hv, by rw [heq hv out hout]; rfl⟩
  · have hout : out ≠ [] := List.ne_nil_of_length_pos
      (Nat.lt_of_lt_of_le (List.length_pos.mpr himg) hfit)
    rw [heq hv out hout]
    refine ⟨rfl, rfl, ?_⟩
    simp only [Outcome.sized, Outcome.sizedAt, if_neg (Nat.not_lt.mpr hfit)]
    exact Bytes.take_write_zero

theorem one_le_length_pushScript (q : Bytes) : 1 ≤ (pushScript q).length := by
  simp only [length_pushScript, scriptGetPushSize, calcPushOpcodeSize]; split_ifs <;> omega

section Agreement

variable {c : Collab} {bytes : Bytes} {flags : UInt32}

theorem agrees_p2pkh :
    Agrees (wallyScriptpubkeyP2pkhFromBytes c bytes flags) (P2pkhInput bytes flags)
      (p2pkhImage (pushPayload c bytes flags)) (wallyScriptpubkeyGetType · = (.ok, .p2pkh)) :=
  agrees_of_sized (fun _ hok hw => p2pkhInput_of_fits hok hw)
    (fun hin _ hout => wallyScriptpubkeyP2pkhFromBytes_eq hin hout)
    (fun hin => getType_p2pkhImage (length_pushPayload_p2pkh hin)) (by simp [p2pkhImage])

theorem agrees_p2sh :
    Agrees (wallyScriptpubkeyP2shFromBytes c bytes flags) (P2shInput bytes flags)
      (p2shImage (pushPayload c bytes flags)) (wallyScriptpubkeyGetType · = (.ok, .p2sh)) :=
  agrees_of_sized (fun _ hok hw => p2shInput_of_fits hok hw)
    (fun hin _ hout => wallyScriptpubkeyP2shFromBytes_eq hin hout)
    (fun hin => getType_p2shImage (length_pushPayload_p2sh hin)) (by simp [p2shImage])

theorem agrees_multisig {threshold : Nat} :
    Agrees (wallyScriptpubkeyMultisigFromBytes bytes threshold flags)
      (MultisigInput bytes threshold flags) (multisigImage threshold (multisigPubkeys bytes flags))
      (wallyScriptpubkeyGetType · = (.ok, .multisig)) := by
  refine agrees_of_sized (fun _ hok hw => multisigInput_of_fits hok hw)
    (fun hin _ hout => wallyScriptpubkeyMultisigFromBytes_eq hin hout) (fun hin => ?_)
    (by simp [multisigImage])
  obtain ⟨-, hn1, hn15, ht1, htn, -⟩ := hin
  exact getType_multisigImage ht1 (by omega) (by rw [length_multisigPubkeys]; omega)
    (by rw [length_multisigPubkeys]; omega) fun _ => length_of_mem_multisigPubkeys

/-- The CSV builders report the size of their image on every buffer of an input they build from,
so one that fits its report is not empty. -/
theorem ne_nil_of_sized {img out : Bytes} (himg : img ≠ [])
    (hw : (Outcome.sized img out).written ≤ out.length) : out ≠ [] :=
  List.ne_nil_of_length_pos (Nat.lt_of_lt_of_le (List.length_pos.mpr himg) hw)

theorem agrees_csv2of2Then1 {csvBlocks : Nat} :
    Agrees (wallyScriptpubkeyCsv2of2Then1FromBytes bytes csvBlocks flags)
      (CsvInput bytes csvBlocks flags) (csv2of2Then1Image bytes csvBlocks) fun s =>
        wallyScriptpubkeyGetType s = (.ok, .csv2of21) ∧
          wallyScriptpubkeyCsvBlocksFromCsv2of2Then1 s = (.ok, csvBlocks) := by
  have himg : csv2of2Then1Image bytes csvBlocks ≠ [] := by simp [csv2of2Then1Image]
  refine agrees_of_sized (fun out hok hw => ⟨csvInput_of_fits hok, ?_⟩)
    (fun hin out _ => wallyScriptpubkeyCsv2of2Then1FromBytes_eq hin out)
    (fun hin => classify_csv2of2Then1Image hin.1 hin.2.1 hin.2.2.1) himg
  rw [wallyScriptpubkeyCsv2of2Then1FromBytes_eq (csvInput_of_fits hok)] at hw
  exact ne_nil_of_sized himg hw

theorem agrees_csv2of2Then1Opt {csvBlocks : Nat} :
    Agrees (wallyScriptpubkeyCsv2of2Then1FromBytesOpt bytes csvBlocks flags)
      (CsvInput bytes csvBlocks flags) (csv2of2Then1OptImage bytes csvBlocks) fun s =>
        wallyScriptpubkeyGetType s = (.ok, .csv2of21Opt) ∧
          wallyScriptpubkeyCsvBlocksFromCsv2of2Then1 s = (.ok, csvBlocks) := by
  have himg : csv2of2Then1OptImage bytes csvBlocks ≠ [] := by simp [csv2of2Then1OptImage]
  refine agrees_of_sized (fun out hok hw => ⟨csvOptInput_of_fits hok, ?_⟩)
    (fun hin out _ => wallyScriptpubkeyCsv2of2Then1FromBytesOpt_eq hin out)
    (fun hin => classify_csv2of2Then1OptImage hin.1 hin.2.1 hin.2.2.1) himg
  rw [wallyScriptpubkeyCsv2of2Then1FromBytesOpt_eq (csvOptInput_of_fits hok)] at hw
  exact ne_nil_of_sized himg hw

theorem agrees_p2tr {extraFlags : UInt32} :
    Agrees (wallyScriptpubkeyP2trFromBytes c extraFlags bytes flags)
      (P2trInput c extraFlags bytes flags) (witnessProgramImage 1 (p2trOutputKey c bytes flags))
      (wallyScriptpubkeyGetType · = (.ok, .p2tr)) := by
  have himg : witnessProgramImage 1 (p2trOutputKey c bytes flags) ≠ [] := by
    simp [witnessProgramImage]
  refine agrees_of_sized (fun out hok hw => ⟨p2trInput_of_fits hok hw, ?_⟩)
    (fun hin out _ => ?_) (fun hin => ?_) himg
  · obtain ⟨hf, key, hk, h32⟩ := p2trInput_of_fits hok hw
    rw [wallyScriptpubkeyP2trFromBytes_eq hf hk h32, ← p2trOutputKey_eq hk] at hw
    exact ne_nil_of_sized himg hw
  · obtain ⟨hf, key, hk, h32⟩ := hin
    rw [p2trOutputKey_eq hk]
    exact wallyScriptpubkeyP2trFromBytes_eq hf hk h32 out
  · obtain ⟨-, key, hk, h32⟩ := hin
    rw [p2trOutputKey_eq hk, getType_witnessProgramImage (by decide) (by rw [h32]; decide)
      (by rw [h32]; decide), h32]
    rfl

theorem agrees_opReturn {maxLen : Nat} :
    Agrees (wallyScriptpubkeyOpReturnFromBytes maxLen c bytes flags)
      (bytes.length ≤ maxLen ∧ flags = 0) (opReturnImage bytes)
      (wallyScriptpubkeyGetType · = (.ok, .opReturn)) := by
  have hI : 2 ≤ (opReturnImage bytes).length := by
    simpa [opReturnImage] using one_le_length_pushScript bytes
  refine ⟨fun out hok hw => ?_,
    fun ⟨hb, hf⟩ => ⟨getType_opReturnImage bytes, fun out hfit => ?_⟩⟩
  · obtain ⟨hb, rfl, hout⟩ := opReturnInput_of_fits hok
    refine ⟨⟨hb, rfl⟩, ?_⟩
    rw [wallyScriptpubkeyOpReturnFromBytes_eq (c := c) hb hout] at hok ⊢
    split_ifs at hok ⊢ <;> rfl
  · subst hf
    rw [wallyScriptpubkeyOpReturnFromBytes_eq hb (List.ne_nil_of_length_pos (by omega)),
      if_neg (by omega), if_neg (by omega)]
    exact ⟨rfl, rfl, Bytes.take_write_zero⟩

theorem agrees_witnessProgram {version : Nat} (hp : flags &&& wallyScriptAsPush = 0) :
    Agrees (wallyWitnessProgramFromBytesAndVersion c bytes version flags)
      (WitnessProgramInput bytes version flags)
      (witnessProgramImage version (pushPayload c bytes flags))
      (wallyScriptpubkeyGetType · =
        (.ok, witnessProgramType version (pushPayload c bytes flags).length)) := by
  refine ⟨fun out hok hw => ?_, fun hin => ⟨?_, fun out hfit => ?_⟩⟩
  · obtain ⟨hin, hout⟩ := witnessProgramInput_of_fits hp hok
    refine ⟨hin, ?_⟩
    rw [wallyWitnessProgramFromBytesAndVersion_eq hin hout] at hok ⊢
    split_ifs at hok ⊢ <;> rfl
  · have hl := length_pushPayload_witness (c := c) hin
    exact getType_witnessProgramImage hin.1 hl.1 hl.2
  · have hI : 2 ≤ (witnessProgramImage version (pushPayload c bytes flags)).length := by
      simpa [witnessProgramImage] using one_le_length_pushScript (pushPayload c bytes flags)
    rw [wallyWitnessProgramFromBytesAndVersion_eq hin (List.ne_nil_of_length_pos (by omega)),
      if_neg (by omega), if_neg (by omega)]
    exact ⟨rfl, rfl, Bytes.take_write_zero⟩

end Agreement

/-- **Builders and classifier agree.** Every scriptPubkey builder succeeds into a buffer that
holds the size it reports exactly on the inputs it builds from, and there stores its image, which
`get_type` classifies as the builder's type: a witness program without `WALLY_SCRIPT_AS_PUSH` by
its version and program length; the delay of either CSV template reads back. -/
theorem getType_builders (maxOpReturnLen : Nat) (c : Collab) (extraFlags : UInt32) :
    (∀ bytes flags, Agrees (wallyScriptpubkeyP2pkhFromBytes c bytes flags)
      (P2pkhInput bytes flags) (p2pkhImage (pushPayload c bytes flags))
      (wallyScriptpubkeyGetType · = (.ok, .p2pkh))) ∧
    (∀ bytes flags, Agrees (wallyScriptpubkeyP2shFromBytes c bytes flags) (P2shInput bytes flags)
      (p2shImage (pushPayload c bytes flags)) (wallyScriptpubkeyGetType · = (.ok, .p2sh))) ∧
    (∀ bytes flags, Agrees (wallyScriptpubkeyOpReturnFromBytes maxOpReturnLen c bytes flags)
      (bytes.length ≤ maxOpReturnLen ∧ flags = 0) (opReturnImage bytes)
      (wallyScriptpubkeyGetType · = (.ok, .opReturn))) ∧
    (∀ bytes threshold flags, Agrees (wallyScriptpubkeyMultisigFromBytes bytes threshold flags)
      (MultisigInput bytes threshold flags) (multisigImage threshold (multisigPubkeys bytes flags))
      (wallyScriptpubkeyGetType · = (.ok, .multisig))) ∧
    (∀ bytes csvBlocks flags,
      Agrees (wallyScriptpubkeyCsv2of2Then1FromBytes bytes csvBlocks flags)
        (CsvInput bytes csvBlocks flags) (csv2of2Then1Image bytes csvBlocks) fun s =>
          wallyScriptpubkeyGetType s = (.ok, .csv2of21) ∧
            wallyScriptpubkeyCsvBlocksFromCsv2of2Then1 s = (.ok, csvBlocks)) ∧
    (∀ bytes csvBlocks flags,
      Agrees (wallyScriptpubkeyCsv2of2Then1FromBytesOpt bytes csvBlocks flags)
        (CsvInput bytes csvBlocks flags) (csv2of2Then1OptImage bytes csvBlocks) fun s =>
          wallyScriptpubkeyGetType s = (.ok, .csv2of21Opt) ∧
            wallyScriptpubkeyCsvBlocksFromCsv2of2Then1 s = (.ok, csvBlocks)) ∧
    (∀ bytes flags, Agrees (wallyScriptpubkeyP2trFromBytes c extraFlags bytes flags)
      (P2trInput c extraFlags bytes flags) (witnessProgramImage 1 (p2trOutputKey c bytes flags))
      (wallyScriptpubkeyGetType · = (.ok, .p2tr))) ∧
    (∀ bytes version flags, flags &&& wallyScriptAsPush = 0 →
      Agrees (wallyWitnessProgramFromBytesAndVersion c bytes version flags)
        (WitnessProgramInput bytes version flags)
        (witnessProgramImage version (pushPayload c bytes flags))
        (wallyScriptpubkeyGetType · =
          (.ok, witnessProgramType version (pushPayload c bytes flags).length))) :=
  ⟨fun _ _ => agrees_p2pkh, fun _ _ => agrees_p2sh, fun _ _ => agrees_opReturn,
    fun _ _ _ => agrees_multisig, fun _ _ _ => agrees_csv2of2Then1,
    fun _ _ _ => agrees_csv2of2Then1Opt, fun _ _ => agrees_p2tr,
    fun _ _ _ hp => agrees_witnessProgram hp⟩

/-- The spec's round trip: template A for two keys and the delay 144 is built into 80 bytes,
classified CSV2OF2_1, and its delay read back; and a 20-byte version-0 program built into 22
bytes without flags is classified P2WPKH. -/
theorem getType_builders_samples :
    CsvInput (List.replicate 66 2) 144 0 ∧
    (let o := wallyScriptpubkeyCsv2of2Then1FromBytes (List.replicate 66 2) 144 0
      (List.replicate 80 0)
     o.ret = .ok ∧ wallyScriptpubkeyGetType (o.mem.take o.written) = (.ok, .csv2of21) ∧
      wallyScriptpubkeyCsvBlocksFromCsv2of2Then1 (o.mem.take o.written) = (.ok, 144)) ∧
    (0 : UInt32) &&& wallyScriptAsPush = 0 ∧ WitnessProgramInput (List.replicate 20 7) 0 0 ∧
    (let o := wallyWitnessProgramFromBytesAndVersion sampleCollab (List.replicate 20 7) 0 0
      (List.replicate 22 0)
     o.ret = .ok ∧ wallyScriptpubkeyGetType (o.mem.take o.written) = (.ok, .p2wpkh)) := by
  have hcsv : CsvInput (List.replicate 66 2) 144 0 := by unfold CsvInput; decide
  have hwp : WitnessProgramInput (List.replicate 20 7) 0 0 := by unfold WitnessProgramInput; decide
  have h144 : scriptintGetLength 144 ≤ 2 := scriptintGetLength_le (by decide) (by decide)
  obtain ⟨hA, hSA⟩ := ((getType_builders 80 sampleCollab 0).2.2.2.2.1 _ 144 0).2 hcsv
  obtain ⟨hW, hSW⟩ :=
    ((getType_builders 80 sampleCollab 0).2.2.2.2.2.2.2 _ 0 0 (by decide)).2 hwp
  obtain ⟨hokA, hwA, htA⟩ := hSA (List.replicate 80 0)
    (by simp [csv2of2Then1Image, length_scriptintToBytes, ecPublicKeyLen]; omega)
  obtain ⟨hokW, hwW, htW⟩ := hSW (List.replicate 22 0) (by decide)
  refine ⟨hcsv, ⟨hokA, ?_⟩, by decide, hwp, hokW, ?_⟩
  · rw [hwA, htA]; exact hA
  · rw [hwW, htW, hW]; rfl

/-! ### What the CSV classifiers accept, against the builders -/

theorem ofNat_length_inj {d d' : Bytes} (hd : d.length ≤ 4) (hd' : d'.length ≤ 4)
    (h : UInt8.ofNat d.length = UInt8.ofNat d'.length) : d.length = d'.length := by
  have := congrArg UInt8.toNat h
  simp only [toNat_ofNat_byte] at this
  omega

theorem csvScriptA_append_eq_iff {main recovery d d' t : Bytes} (hd : d.length ≤ 4)
    (hd' : d'.length ≤ 4) :
    csvScriptA main recovery (UInt8.ofNat d.length :: d) ++ t =
        csvScriptA main recovery (UInt8.ofNat d'.length :: d') ↔ d = d' ∧ t = [] := by
  constructor
  · intro h
    simp only [csvScriptA, List.append_assoc, List.cons_append, List.singleton_append,
      List.cons.injEq, true_and, List.append_cancel_left_eq] at h
    obtain ⟨rfl, h⟩ := List.append_inj h.2 (ofNat_length_inj hd hd' h.1)
    exact ⟨rfl, by simpa using h⟩
  · rintro ⟨rfl, rfl⟩
    rw [List.append_nil]

theorem csvScriptOpt_eq_iff {main recovery d d' : Bytes} (hd : d.length ≤ 4)
    (hd' : d'.length ≤ 4) :
    csvScriptOpt main recovery (UInt8.ofNat d.length :: d) =
        csvScriptOpt main recovery (UInt8.ofNat d'.length :: d') ↔ d = d' := by
  constructor
  · intro h
    simp only [csvScriptOpt, List.append_assoc, List.cons_append, List.singleton_append,
      List.cons.injEq, true_and, List.append_cancel_left_eq] at h
    exact (List.append_inj h.2 (ofNat_length_inj hd hd' h.1)).1
  · rintro rfl
    rfl

theorem keys_of_append {main recovery : Bytes} (hm : main.length = 33) (hr : recovery.length = 33) :
    (main ++ recovery).take ecPublicKeyLen = main ∧
      ((main ++ recovery).drop ecPublicKeyLen).take ecPublicKeyLen = recovery :=
  ⟨List.take_left' hm, by
    rw [List.drop_left' (show main.length = ecPublicKeyLen from hm),
      List.take_of_length_le (by rw [hr]; rfl)]⟩

/-- A delay push is the builders' encoding of its number exactly when it is minimal. -/
theorem scriptintToBytes_eq_iff {d : Bytes} (hd : DelayPush d) :
    scriptintToBytes ((scriptnumValue d).toNat : Int) = d ↔ IsMinimalScriptint d := by
  rw [Int.toNat_of_nonneg (by linarith [hd.value_ge])]
  exact ⟨fun h => h ▸ isMinimal_scriptintToBytes _, scriptintToBytes_scriptnumValue⟩

/-- A builder that keeps the sizing contract with `img` on every buffer stores `s` exactly when
`s` is `img`. -/
theorem stores_sized_iff {build : Bytes → Outcome} {img s : Bytes}
    (h : ∀ out, build out = .sized img out) : Stores build s ↔ img = s := by
  constructor
  · intro hs
    obtain ⟨-, hw, ht⟩ := hs (List.replicate s.length 0) (by simp)
    rw [h] at hw ht
    simp only [Outcome.sized, Outcome.sizedAt] at hw
    rw [Outcome.sized, Outcome.sizedAt, ← hw, if_neg (by simp [hw]), Bytes.take_write_zero] at ht
    exact ht
  · rintro rfl out hfit
    rw [h]
    refine ⟨rfl, rfl, ?_⟩
    simp only [Outcome.sized, Outcome.sizedAt, if_neg (Nat.not_lt.mpr hfit)]
    exact Bytes.take_write_zero

/-- `s` ends where template A ends around the delay push whose length byte is `s[39]`: no byte
follows its final `OP_CHECKSIG`. -/
def EndsAtTemplateA (s : Bytes) : Prop :=
  s.length = 78 + (s.getD 39 0).toNat

/-- Template A around a push of at most four bytes, followed by `t`, ends at the template exactly
when nothing follows it. -/
theorem endsAtTemplateA_iff {main recovery d t : Bytes} (hm : main.length = 33)
    (hr : recovery.length = 33) (hd : d.length ≤ 4) :
    EndsAtTemplateA (csvScriptA main recovery (UInt8.ofNat d.length :: d) ++ t) ↔ t = [] := by
  have h39 : (csvScriptA main recovery (UInt8.ofNat d.length :: d) ++ t).getD 39 0 =
      UInt8.ofNat d.length := by
    rw [csvScriptA, List.append_assoc, List.append_assoc, List.append_assoc, List.append_assoc,
      List.getD_append_right _ _ _ _ (by simp [hm])]
    simp [hm]
  rw [EndsAtTemplateA, h39, toNat_ofNat_byte, Nat.mod_eq_of_lt (by omega), ← List.length_eq_zero]
  simp only [csvScriptA, List.length_append, List.length_cons, List.length_nil, hm, hr]
  omega

/-- The keys and the delay of a script a CSV matcher accepts are an input both CSV builders
take. -/
theorem csvInput_of_delayPush {main recovery d : Bytes} (hm : main.length = 33)
    (hr : recovery.length = 33) (hd : DelayPush d) :
    CsvInput (main ++ recovery) (scriptnumValue d).toNat 0 :=
  ⟨by simp [hm, hr, ecPublicKeyLen], by have := hd.value_ge; omega,
    by have := hd.value_le; omega, rfl⟩

/-- The builders' encoding of a delay a CSV matcher accepts has at most four bytes. -/
theorem length_scriptintToBytes_delay {d : Bytes} (hd : DelayPush d) :
    (scriptintToBytes ((scriptnumValue d).toNat : Int)).length ≤ 4 := by
  have hv := hd.value_le
  rw [length_scriptintToBytes]; exact scriptintGetLength_le (k := 4) (by decide) (by omega)

/-- **What the CSV classifiers accept.** A script that `get_type` classifies as CSV2OF2_1_OPT is
the optimised template around two 33-byte keys and a delay push `d` of a number in
`[17, 65535]`, which the delay accessor returns; the optimised builder, for those keys and that
delay, stores it exactly when `d` is the minimal encoding. The same holds of template A and its
builder for every script classified CSV2OF2_1 that ends at the template's final `OP_CHECKSIG`.
The accessor answers only on scripts `get_type` classifies as one of the two. -/
theorem csv_classifiers_accept (s : Bytes) :
    (wallyScriptpubkeyGetType s = (.ok, .csv2of21) → EndsAtTemplateA s →
      ∃ main recovery d, main.length = 33 ∧ recovery.length = 33 ∧ DelayPush d ∧
        s = csvScriptA main recovery (UInt8.ofNat d.length :: d) ∧
        wallyScriptpubkeyCsvBlocksFromCsv2of2Then1 s = (.ok, (scriptnumValue d).toNat) ∧
        (Stores (wallyScriptpubkeyCsv2of2Then1FromBytes (main ++ recovery)
          (scriptnumValue d).toNat 0) s ↔ IsMinimalScriptint d)) ∧
    (wallyScriptpubkeyGetType s = (.ok, .csv2of21Opt) →
      ∃ main recovery d, main.length = 33 ∧ recovery.length = 33 ∧ DelayPush d ∧
        s = csvScriptOpt main recovery (UInt8.ofNat d.length :: d) ∧
        wallyScriptpubkeyCsvBlocksFromCsv2of2Then1 s = (.ok, (scriptnumValue d).toNat) ∧
        (Stores (wallyScriptpubkeyCsv2of2Then1FromBytesOpt (main ++ recovery)
          (scriptnumValue d).toNat 0) s ↔ IsMinimalScriptint d)) ∧
    (∀ b, wallyScriptpubkeyCsvBlocksFromCsv2of2Then1 s = (.ok, b) →
      wallyScriptpubkeyGetType s = (.ok, .csv2of21) ∨
        wallyScriptpubkeyGetType s = (.ok, .csv2of21Opt)) := by
  refine ⟨fun h hend => ?_, fun h => ?_, fun b h => ?_⟩
  · obtain ⟨b, hb⟩ := Option.isSome_iff_exists.mp (getType_eq_csv2of21_iff.mp h)
    obtain ⟨main, recovery, d, t, hm, hr, hd, -, rfl, rfl⟩ := csvA_sound hb
    obtain rfl := (endsAtTemplateA_iff hm hr hd.length_le).mp hend
    rw [List.append_nil] at hb ⊢
    obtain ⟨hkm, hkr⟩ := keys_of_append hm hr
    refine ⟨main, recovery, d, hm, hr, hd, rfl, ?_, ?_⟩
    · rw [wallyScriptpubkeyCsvBlocksFromCsv2of2Then1, if_neg (by simp [csvScriptA]), hb]
    · -- the builder, on those keys and that delay, stores template A around the minimal push
      rw [stores_sized_iff (wallyScriptpubkeyCsv2of2Then1FromBytes_eq
          (csvInput_of_delayPush hm hr hd)), csv2of2Then1Image_eq, hkm, hkr,
        ← List.append_nil (csvScriptA _ _ _),
        csvScriptA_append_eq_iff (length_scriptintToBytes_delay hd) hd.length_le,
        scriptintToBytes_eq_iff hd]
      exact and_iff_left rfl
  · obtain ⟨b, hb⟩ := Option.isSome_iff_exists.mp (getType_eq_csv2of21Opt_iff.mp h)
    obtain ⟨main, recovery, d, hm, hr, hd, -, rfl, rfl⟩ := csvOpt_sound hb
    obtain ⟨hkm, hkr⟩ := keys_of_append hm hr
    have hA : scriptpubkeyIsCsv2of2Then1 (csvScriptOpt main recovery (UInt8.ofNat d.length :: d)) =
        none := scriptpubkeyIsCsv2of2Then1_of_head (by simp [csvScriptOpt]; decide)
    refine ⟨main, recovery, d, hm, hr, hd, rfl, ?_, ?_⟩
    · rw [wallyScriptpubkeyCsvBlocksFromCsv2of2Then1, if_neg (by simp [csvScriptOpt]), hA, hb]
    · rw [stores_sized_iff (wallyScriptpubkeyCsv2of2Then1FromBytesOpt_eq
          (csvInput_of_delayPush hm hr hd)), csv2of2Then1OptImage_eq, hkm, hkr,
        csvScriptOpt_eq_iff (length_scriptintToBytes_delay hd) hd.length_le,
        scriptintToBytes_eq_iff hd]
  · unfold wallyScriptpubkeyCsvBlocksFromCsv2of2Then1 at h
    split_ifs at h
    · simp at h
    split at h
    · exact .inl (getType_eq_csv2of21_iff.mpr (by simp [*]))
    · split at h
      · exact .inr (getType_eq_csv2of21Opt_iff.mpr (by simp [*]))
      · simp at h

/-- The optimised template around the delay 17 pushed in two bytes, `11 00`, is classified
CSV2OF2_1_OPT with delay 17; the optimised builder's outputs for 17 are one byte shorter. -/
theorem csv_nonminimal_delay :
    wallyScriptpubkeyGetType
        (csvScriptOpt (List.replicate 33 2) (List.replicate 33 3) [2, 0x11, 0]) =
      (.ok, .csv2of21Opt) ∧
    wallyScriptpubkeyCsvBlocksFromCsv2of2Then1
        (csvScriptOpt (List.replicate 33 2) (List.replicate 33 3) [2, 0x11, 0]) = (.ok, 17) ∧
    ∀ bytes flags out, (wallyScriptpubkeyCsv2of2Then1FromBytesOpt bytes 17 flags out).written ≠
      (csvScriptOpt (List.replicate 33 2) (List.replicate 33 3) [2, 0x11, 0]).length := by
  refine ⟨by decide, by decide, fun bytes flags out => ?_⟩
  have h17 : scriptintGetLength 17 ≤ 1 := scriptintGetLength_le (by decide) (by decide)
  unfold wallyScriptpubkeyCsv2of2Then1FromBytesOpt
  dsimp only
  split_ifs <;> simp [csvScriptOpt, ecPublicKeyLen] <;> omega

/-- Template A for the delay 144 and the optimised template for 17 pushed in two bytes, each
read back by the classifier and the delay accessor. -/
theorem csv_classifiers_accept_samples :
    wallyScriptpubkeyGetType (csvScriptA (List.replicate 33 2) (List.replicate 33 3) [2, 0x90, 0]) =
      (.ok, .csv2of21) ∧
    EndsAtTemplateA (csvScriptA (List.replicate 33 2) (List.replicate 33 3) [2, 0x90, 0]) ∧
    (∃ main recovery d, main.length = 33 ∧ recovery.length = 33 ∧ DelayPush d ∧
      csvScriptA (List.replicate 33 2) (List.replicate 33 3) [2, 0x90, 0] =
        csvScriptA main recovery (UInt8.ofNat d.length :: d) ∧
      wallyScriptpubkeyCsvBlocksFromCsv2of2Then1
        (csvScriptA (List.replicate 33 2) (List.replicate 33 3) [2, 0x90, 0]) =
          (.ok, (scriptnumValue d).toNat) ∧
      (Stores (wallyScriptpubkeyCsv2of2Then1FromBytes (main ++ recovery) (scriptnumValue d).toNat 0)
          (csvScriptA (List.replicate 33 2) (List.replicate 33 3) [2, 0x90, 0]) ↔
        IsMinimalScriptint d)) ∧
    wallyScriptpubkeyGetType
        (csvScriptOpt (List.replicate 33 2) (List.replicate 33 3) [2, 0x11, 0]) =
      (.ok, .csv2of21Opt) ∧
    (∃ main recovery d, main.length = 33 ∧ recovery.length = 33 ∧ DelayPush d ∧
      csvScriptOpt (List.replicate 33 2) (List.replicate 33 3) [2, 0x11, 0] =
        csvScriptOpt main recovery (UInt8.ofNat d.length :: d) ∧
      wallyScriptpubkeyCsvBlocksFromCsv2of2Then1
        (csvScriptOpt (List.replicate 33 2) (List.replicate 33 3) [2, 0x11, 0]) =
          (.ok, (scriptnumValue d).toNat) ∧
      (Stores (wallyScriptpubkeyCsv2of2Then1FromBytesOpt (main ++ recovery)
          (scriptnumValue d).toNat 0)
          (csvScriptOpt (List.replicate 33 2) (List.replicate 33 3) [2, 0x11, 0]) ↔
        IsMinimalScriptint d)) ∧
    wallyScriptpubkeyCsvBlocksFromCsv2of2Then1
        (csvScriptOpt (List.replicate 33 2) (List.replicate 33 3) [2, 0x11, 0]) = (.ok, 17) ∧
    (wallyScriptpubkeyGetType
        (csvScriptOpt (List.replicate 33 2) (List.replicate 33 3) [2, 0x11, 0]) =
          (.ok, .csv2of21) ∨
      wallyScriptpubkeyGetType
        (csvScriptOpt (List.replicate 33 2) (List.replicate 33 3) [2, 0x11, 0]) =
          (.ok, .csv2of21Opt)) :=
  have hA : wallyScriptpubkeyGetType
      (csvScriptA (List.replicate 33 2) (List.replicate 33 3) [2, 0x90, 0]) = (.ok, .csv2of21) := by
    decide
  have hE : EndsAtTemplateA (csvScriptA (List.replicate 33 2) (List.replicate 33 3) [2, 0x90, 0]) :=
    by unfold EndsAtTemplateA; decide
  have hO : wallyScriptpubkeyGetType
      (csvScriptOpt (List.replicate 33 2) (List.replicate 33 3) [2, 0x11, 0]) =
        (.ok, .csv2of21Opt) := by decide
  have hb : wallyScriptpubkeyCsvBlocksFromCsv2of2Then1
      (csvScriptOpt (List.replicate 33 2) (List.replicate 33 3) [2, 0x11, 0]) = (.ok, 17) := by
    decide
  ⟨hA, hE, (csv_classifiers_accept _).1 hA hE, hO, (csv_classifiers_accept _).2.1 hO, hb,
    (csv_classifiers_accept _).2.2 17 hb⟩

/-! ### What the classifier accepts of the fixed templates -/

/-- `get_type` answers a fixed template's type only where that template's matcher matches. -/
theorem matchers_of_getType {s : Bytes} :
    (wallyScriptpubkeyGetType s = (.ok, .opReturn) → scriptpubkeyIsOpReturn s = true) ∧
    (wallyScriptpubkeyGetType s = (.ok, .p2pkh) → scriptpubkeyIsP2pkh s = true) ∧
    (wallyScriptpubkeyGetType s = (.ok, .p2sh) → scriptpubkeyIsP2sh s = true) ∧
    (wallyScriptpubkeyGetType s = (.ok, .p2wpkh) → scriptpubkeyIsP2wpkh s = true) ∧
    (wallyScriptpubkeyGetType s = (.ok, .p2wsh) → scriptpubkeyIsP2wsh s = true) ∧
    (wallyScriptpubkeyGetType s = (.ok, .p2tr) → scriptpubkeyIsP2tr s = true) := by
  refine ⟨?_, ?_, ?_, ?_, ?_, ?_⟩ <;> intro h <;> by_contra hm <;>
    simp only [wallyScriptpubkeyGetType, hm, Bool.false_eq_true, if_false] at h <;> revert h <;>
    repeat' apply ite_ne_of_ne
  all_goals decide

theorem getType_eq_opReturn_iff {s : Bytes} :
    wallyScriptpubkeyGetType s = (.ok, .opReturn) ↔ ∃ d, s = opReturn :: d := by
  constructor
  · intro h
    have hR := matchers_of_getType.1 h
    simp only [scriptpubkeyIsOpReturn, Bool.decide_and, Bool.and_eq_true, decide_eq_true_eq] at hR
    obtain _ | ⟨b, d⟩ := s
    · exact absurd rfl hR.1
    · exact ⟨d, by rw [← hR.2]; rfl⟩
  · rintro ⟨d, rfl⟩
    simp [wallyScriptpubkeyGetType, scriptpubkeyIsOpReturn]

theorem getType_eq_p2pkh_iff {s : Bytes} :
    wallyScriptpubkeyGetType s = (.ok, .p2pkh) ↔
      ∃ h : Bytes, h.length = hash160Len ∧ s = p2pkhImage h := by
  refine ⟨fun h => ?_, fun ⟨h, hl, hs⟩ => hs ▸ getType_p2pkhImage hl⟩
  have hP := matchers_of_getType.2.1 h
  simp only [scriptpubkeyIsP2pkh, Bool.decide_and, Bool.and_eq_true, decide_eq_true_eq] at hP
  obtain ⟨hl, h0, h1, h2, h23, h24⟩ := hP
  have hs := @Bytes.eq_frame s [opDup, opHash160, 20] [opEqualverify, opChecksig] 20
    (by simp [hl, scriptpubkeyP2pkhLen])
    (fun i hi => by simp only [List.length_cons, List.length_nil] at hi; interval_cases i <;>
      assumption)
    (fun i hi => by simp only [List.length_cons, List.length_nil] at hi; interval_cases i <;>
      assumption)
  have hq : ((s.drop 3).take 20).length = 20 := by simp [hl, scriptpubkeyP2pkhLen]
  exact ⟨_, hq, hs.trans (by simp [p2pkhImage, pushScript, pushOpcode, hq])⟩

theorem getType_eq_p2sh_iff {s : Bytes} :
    wallyScriptpubkeyGetType s = (.ok, .p2sh) ↔
      ∃ h : Bytes, h.length = hash160Len ∧ s = p2shImage h := by
  refine ⟨fun h => ?_, fun ⟨h, hl, hs⟩ => hs ▸ getType_p2shImage hl⟩
  have hS := matchers_of_getType.2.2.1 h
  simp only [scriptpubkeyIsP2sh, Bool.decide_and, Bool.and_eq_true, decide_eq_true_eq] at hS
  obtain ⟨hl, h0, h1, h22⟩ := hS
  have hs := @Bytes.eq_frame s [opHash160, 20] [opEqual] 20 (by simp [hl, scriptpubkeyP2shLen])
    (fun i hi => by simp only [List.length_cons, List.length_nil] at hi; interval_cases i <;>
      assumption)
    (fun i hi => by simp only [List.length_cons, List.length_nil] at hi; interval_cases i; exact h22)
  have hq : ((s.drop 2).take 20).length = 20 := by simp [hl, scriptpubkeyP2shLen]
  exact ⟨_, hq, hs.trans (by simp [p2shImage, pushScript, pushOpcode, hq])⟩

/-- A script that holds a push of `n` bytes behind the opcode `op`, and nothing else, is a
witness-program image. -/
theorem eq_cons_pushScript {s : Bytes} {op : UInt8} {n : Nat} (hn : n < 76)
    (hl : s.length = n + 2) (h0 : s.getD 0 0 = op) (h1 : s.getD 1 0 = UInt8.ofNat n) :
    ∃ q : Bytes, q.length = n ∧ s = op :: pushScript q := by
  have hs := @Bytes.eq_frame s [op, UInt8.ofNat n] [] n (by simp [hl]; omega)
    (fun i hi => by simp only [List.length_cons, List.length_nil] at hi; interval_cases i <;>
      assumption)
    (fun i hi => by simp at hi)
  have hq : ((s.drop 2).take n).length = n := by simp [hl]
  exact ⟨_, hq, hs.trans (by simp [pushScript, pushOpcode, hq, hn])⟩

/-- A version-0 or version-1 witness program of 20 or 32 bytes is classified by
`witnessProgramType`. -/
theorem getType_witnessProgramImage_of {v n : Nat} {q : Bytes} (hv : v ≤ 1) (hn : n = 20 ∨ n = 32)
    (hl : q.length = n) :
    wallyScriptpubkeyGetType (witnessProgramImage v q) = (.ok, witnessProgramType v n) := by
  rw [getType_witnessProgramImage (by omega) (by omega) (by omega), hl]

theorem getType_eq_p2wpkh_iff {s : Bytes} :
    wallyScriptpubkeyGetType s = (.ok, .p2wpkh) ↔
      ∃ h : Bytes, h.length = hash160Len ∧ s = witnessProgramImage 0 h := by
  refine ⟨fun h => ?_, fun ⟨h, hl, hs⟩ =>
    hs ▸ getType_witnessProgramImage_of (v := 0) (by decide) (.inl rfl) hl⟩
  have hW := matchers_of_getType.2.2.2.1 h
  simp only [scriptpubkeyIsP2wpkh, Bool.decide_and, Bool.and_eq_true, decide_eq_true_eq] at hW
  exact eq_cons_pushScript (by decide) hW.1 hW.2.1 hW.2.2

theorem getType_eq_p2wsh_iff {s : Bytes} :
    wallyScriptpubkeyGetType s = (.ok, .p2wsh) ↔
      ∃ h : Bytes, h.length = sha256Len ∧ s = witnessProgramImage 0 h := by
  refine ⟨fun h => ?_, fun ⟨h, hl, hs⟩ =>
    hs ▸ getType_witnessProgramImage_of (v := 0) (by decide) (.inr rfl) hl⟩
  have hH := matchers_of_getType.2.2.2.2.1 h
  simp only [scriptpubkeyIsP2wsh, Bool.decide_and, Bool.and_eq_true, decide_eq_true_eq] at hH
  exact eq_cons_pushScript (by decide) hH.1 hH.2.1 hH.2.2

theorem getType_eq_p2tr_iff {s : Bytes} :
    wallyScriptpubkeyGetType s = (.ok, .p2tr) ↔
      ∃ k : Bytes, k.length = ecXonlyPublicKeyLen ∧ s = witnessProgramImage 1 k := by
  refine ⟨fun h => ?_, fun ⟨k, hl, hs⟩ =>
    hs ▸ getType_witnessProgramImage_of (v := 1) le_rfl (.inr rfl) hl⟩
  have hT := matchers_of_getType.2.2.2.2.2 h
  simp only [scriptpubkeyIsP2tr, Bool.decide_and, Bool.and_eq_true, decide_eq_true_eq] at hT
  exact eq_cons_pushScript (by decide) hT.1 hT.2.1 hT.2.2

/-- **What the classifier accepts of the fixed templates.** For every script `s`, `get_type`
answers OP_RETURN exactly when `s` starts with `OP_RETURN`, whatever follows; and P2PKH, P2SH,
P2WPKH, P2WSH or P2TR exactly when `s` is that template around a hash, a witness program or an
x-only key of the template's length: the image the matching builder stores. -/
theorem getType_fixed_templates (s : Bytes) :
    (wallyScriptpubkeyGetType s = (.ok, .opReturn) ↔ ∃ d, s = opReturn :: d) ∧
    (wallyScriptpubkeyGetType s = (.ok, .p2pkh) ↔
      ∃ h : Bytes, h.length = hash160Len ∧ s = p2pkhImage h) ∧
    (wallyScriptpubkeyGetType s = (.ok, .p2sh) ↔
      ∃ h : Bytes, h.length = hash160Len ∧ s = p2shImage h) ∧
    (wallyScriptpubkeyGetType s = (.ok, .p2wpkh) ↔
      ∃ h : Bytes, h.length = hash160Len ∧ s = witnessProgramImage 0 h) ∧
    (wallyScriptpubkeyGetType s = (.ok, .p2wsh) ↔
      ∃ h : Bytes, h.length = sha256Len ∧ s = witnessProgramImage 0 h) ∧
    (wallyScriptpubkeyGetType s = (.ok, .p2tr) ↔
      ∃ k : Bytes, k.length = ecXonlyPublicKeyLen ∧ s = witnessProgramImage 1 k) :=
  ⟨getType_eq_opReturn_iff, getType_eq_p2pkh_iff, getType_eq_p2sh_iff, getType_eq_p2wpkh_iff,
    getType_eq_p2wsh_iff, getType_eq_p2tr_iff⟩

end WallyScript
