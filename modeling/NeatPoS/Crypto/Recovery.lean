import NeatPoS.Crypto.Address

/-!
# The address of a recovered key

Three places turn a public key into an address: `PubkeyToAddress` (`crypto/crypto.go`),
`recoverPlain` (`core/types/transaction_signing.go`), which finds the sender of a transaction, and
the precompiled contract `ecrecover` (`core/vm/contracts.go`), which contracts call to check a
signature.  The first two use the format of `Crypto/Address.lean`.  The third still has the one of
Ethereum, 20 bytes of a hash after 12 zeros.  No address of this chain begins with a zero, so that
the word `ecrecover` returns is never the address of an account.
-/

set_option autoImplicit false

namespace NeatPoS

/-! ## Bytes -/

/-- `big.Int.Bytes`. -/
def numberBytes (n : Nat) : Bytes := (Nat.digits 256 n).reverse.map UInt8.ofNat

/-- `common.LeftPadBytes`. -/
def leftPadBytes (slice : Bytes) (l : Nat) : Bytes := List.replicate (l - slice.length) 0 ++ slice

/-- `common.RightPadBytes`. -/
def rightPadBytes (slice : Bytes) (l : Nat) : Bytes := slice ++ List.replicate (l - slice.length) 0

/-- `common.BytesToAddress`. -/
def bytesToAddress (b : Bytes) : Bytes := leftPadBytes (b.drop (b.length - 32)) 32

/-- The bytes from `i` to `j` of a slice that is long enough. -/
def bytesFromTo (b : Bytes) (i j : Nat) : Bytes := (b.drop i).take (j - i)

/-! ## Signatures -/

/-- `secp256k1N`. -/
def secp256k1N : Nat := 0xfffffffffffffffffffffffffffffffebaaedce6af48a03bbfd25e8cd0364141

/-- `ValidateSignatureValues`. -/
def validateSignatureValues (v : UInt8) (r s : Nat) (homestead : Bool) : Bool :=
  if r < 1 ∨ s < 1 then false
  else if homestead = true ∧ secp256k1N / 2 < s then false
  else decide (r < secp256k1N) && decide (s < secp256k1N) && (v == 0 || v == 1)

namespace HashLib

variable (lib : HashLib)

/-- `PubkeyToAddress`, of a key as `FromECDSAPub` gives it. -/
def pubkeyToAddress (pubBytes : Bytes) : Except Panic Bytes := do
  let text ← lib.newNeatScriptAddr pubBytes
  .ok (bytesToAddress text)

/-- `recoverPlain`; an error is `none`. -/
def recoverPlain (sighash : Bytes) (r s vb : Nat) (homestead : Bool) :
    Except Panic (Option Bytes) :=
  if 256 ≤ vb then .ok none
  else
    let v := UInt8.ofNat vb - 27
    if validateSignatureValues v r s homestead = false then .ok none
    else if 32 < (numberBytes r).length ∨ 32 < (numberBytes s).length then
      .error .indexOutOfRange
    else
      let sig := leftPadBytes (numberBytes r) 32 ++ leftPadBytes (numberBytes s) 32 ++ [v]
      match lib.recoverPubkey sighash sig with
      | none => .ok none
      | some pub =>
        if pub.head? ≠ some 4 then .ok none
        else do
          let text ← lib.newNeatScriptAddr pub
          .ok (some (rightPadBytes (text.take 32) 32))

/-- `ecrecover.Run`; a nil result is `none`. -/
def ecrecoverRun (input : Bytes) : Except Panic (Option Bytes) :=
  let input := rightPadBytes input 128
  let r := bytesValue (bytesFromTo input 64 96)
  let s := bytesValue (bytesFromTo input 96 128)
  let v := input.getD 63 0 - 27
  if (bytesFromTo input 32 63).all (· == 0) = false ∨ validateSignatureValues v r s false = false then
    .ok none
  else
    match lib.recoverPubkey (bytesFromTo input 0 32) (bytesFromTo input 64 128 ++ [v]) with
    | none => .ok none
    | some [] => .error .indexOutOfRange
    | some (_ :: xy) => .ok (some (leftPadBytes ((lib.keccak256 xy).drop 12) 32))

end HashLib

/-! ## What the callers pass -/

/-- A number as a word of 32 bytes. -/
def wordBytes (n : Nat) : Bytes := leftPadBytes (numberBytes n) 32

/-- The input of `ecrecover`: the hash, and then `v`, `r` and `s`, each as a word. -/
def ecrecoverInput (hash : Bytes) (v r s : Nat) : Bytes :=
  hash ++ wordBytes v ++ wordBytes r ++ wordBytes s

/-- A signature as the recovery takes it. -/
def compactSignature (r s v : Nat) : Bytes := wordBytes r ++ wordBytes s ++ [UInt8.ofNat v - 27]

/-- The key that is recovered from a signature has the same address everywhere. -/
def HashLib.SameAddress (lib : HashLib) (hash : Bytes) (r s v : Nat) (homestead : Bool) : Prop :=
  ∀ pub, lib.recoverPubkey hash (compactSignature r s v) = some pub →
    ∃ addr, lib.ecrecoverRun (ecrecoverInput hash v r s) = .ok (some addr) ∧
      lib.recoverPlain hash r s v homestead = .ok (some addr) ∧
        lib.pubkeyToAddress pub = .ok addr

/-! ## Words -/

theorem bytesValue_numberBytes (n : Nat) : bytesValue (numberBytes n) = n := by
  have hdigits : ∀ d ∈ Nat.digits 256 n, (UInt8.toNat ∘ UInt8.ofNat) d = id d := by
    intro d hd
    exact UInt8.toNat_ofNat_of_lt (Nat.digits_lt_base (by decide) hd)
  rw [bytesValue, numberBytes, ← List.map_reverse, List.reverse_reverse, List.map_map,
    List.map_congr_left hdigits, List.map_id, Nat.ofDigits_digits]

theorem length_numberBytes {n k : Nat} (h : n < 256 ^ k) : (numberBytes n).length ≤ k := by
  rw [numberBytes, List.length_map, List.length_reverse]
  exact (Nat.digits_length_le_iff (by decide) n).2 h

theorem bytesValue_zeros (n : Nat) : bytesValue (List.replicate n 0) = 0 := by
  rw [bytesValue, List.reverse_replicate, List.map_replicate]
  exact Nat.ofDigits_replicate_zero

theorem length_wordBytes {n : Nat} (h : n < 256 ^ 32) : (wordBytes n).length = 32 := by
  have hle := length_numberBytes h
  rw [wordBytes, leftPadBytes, List.length_append, List.length_replicate]
  omega

theorem bytesValue_wordBytes (n : Nat) : bytesValue (wordBytes n) = n := by
  rw [wordBytes, leftPadBytes, bytesValue_append, bytesValue_zeros, bytesValue_numberBytes,
    Nat.zero_mul, Nat.zero_add]

/-! ## The three derivations -/

theorem valid_bounds {v : UInt8} {r s : Nat} {homestead : Bool}
    (h : validateSignatureValues v r s homestead = true) :
    r < 256 ^ 32 ∧ s < 256 ^ 32 ∧ validateSignatureValues v r s false = true := by
  have hN : secp256k1N < 256 ^ 32 := by decide
  rw [validateSignatureValues] at h ⊢
  by_cases h₁ : r < 1 ∨ s < 1
  · rw [if_pos h₁] at h
    cases h
  by_cases h₂ : homestead = true ∧ secp256k1N / 2 < s
  · rw [if_neg h₁, if_pos h₂] at h
    cases h
  rw [if_neg h₁, if_neg h₂] at h
  rw [if_neg h₁, if_neg (by simp)]
  refine ⟨?_, ?_, h⟩ <;>
  · simp only [Bool.and_eq_true, decide_eq_true_eq] at h
    omega

theorem bytesFromTo_middle {a b c : Bytes} {i j : Nat} (hi : a.length = i)
    (hj : i + b.length = j) : bytesFromTo (a ++ b ++ c) i j = b := by
  subst hi hj
  rw [bytesFromTo, List.append_assoc, List.drop_left, Nat.add_sub_cancel_left, List.take_left]

/-- The words of an input of `ecrecover`; the last byte of the second one is apart. -/
theorem input_words (zs : Bytes) (b : UInt8) {hash x y : Bytes} (hhash : hash.length = 32)
    (hzs : zs.length = 31) (hx : x.length = 32) (hy : y.length = 32) :
    bytesFromTo (hash ++ zs ++ [b] ++ x ++ y) 0 32 = hash ∧
      bytesFromTo (hash ++ zs ++ [b] ++ x ++ y) 32 63 = zs ∧
        (hash ++ zs ++ [b] ++ x ++ y).getD 63 0 = b ∧
          bytesFromTo (hash ++ zs ++ [b] ++ x ++ y) 64 96 = x ∧
            bytesFromTo (hash ++ zs ++ [b] ++ x ++ y) 96 128 = y ∧
              bytesFromTo (hash ++ zs ++ [b] ++ x ++ y) 64 128 = x ++ y := by
  have hlength : (hash ++ zs).length = 63 := by rw [List.length_append, hhash, hzs]
  have hfront : (hash ++ zs ++ [b]).length = 64 := by simp [hhash, hzs]
  refine ⟨?_, ?_, ?_, bytesFromTo_middle hfront (by omega), ?_, ?_⟩
  · have h : bytesFromTo ([] ++ hash ++ (zs ++ [b] ++ x ++ y)) 0 32 = hash :=
      bytesFromTo_middle rfl (by omega)
    simpa only [List.nil_append, List.append_assoc] using h
  · have h : bytesFromTo (hash ++ zs ++ ([b] ++ x ++ y)) 32 63 = zs :=
      bytesFromTo_middle hhash (by omega)
    simpa only [List.append_assoc] using h
  · rw [List.append_assoc, List.append_assoc, List.getD_eq_getElem?_getD,
      List.getElem?_append_right (by omega), hlength]
    rfl
  · have h : bytesFromTo (hash ++ zs ++ [b] ++ x ++ y ++ []) 96 128 = y :=
      bytesFromTo_middle (by rw [List.length_append, hfront, hx]) (by omega)
    rwa [List.append_nil] at h
  · have h : bytesFromTo (hash ++ zs ++ [b] ++ (x ++ y) ++ []) 64 128 = x ++ y :=
      bytesFromTo_middle hfront (by rw [List.length_append, hx, hy])
    rwa [List.append_nil, ← List.append_assoc] at h

namespace HashLib

variable {lib : HashLib} {hash : Bytes} {r s v : Nat} {homestead : Bool}

/-- What `ecrecover` makes of a signature that passes the check. -/
theorem ecrecoverRun_eq (hhash : hash.length = 32) (hv : v = 27 ∨ v = 28) (hr : r < 256 ^ 32)
    (hs : s < 256 ^ 32) (hvalid : validateSignatureValues (UInt8.ofNat v - 27) r s false = true)
    {x : UInt8} {xy : Bytes}
    (hpub : lib.recoverPubkey hash (compactSignature r s v) = some (x :: xy)) :
    lib.ecrecoverRun (ecrecoverInput hash v r s) =
      .ok (some (leftPadBytes ((lib.keccak256 xy).drop 12) 32)) := by
  have hword : wordBytes v = List.replicate 31 0 ++ [UInt8.ofNat v] := by
    rcases hv with rfl | rfl <;> decide
  have hlr := length_wordBytes hr
  have hls := length_wordBytes hs
  have hinput : rightPadBytes (ecrecoverInput hash v r s) 128 =
      hash ++ List.replicate 31 0 ++ [UInt8.ofNat v] ++ wordBytes r ++ wordBytes s := by
    have hlength : (ecrecoverInput hash v r s).length = 128 := by
      simp only [ecrecoverInput, hword, List.length_append, hhash, hlr, hls]
      rfl
    rw [rightPadBytes, hlength, Nat.sub_self, List.replicate_zero, List.append_nil,
      ecrecoverInput, hword, ← List.append_assoc]
  obtain ⟨hhead, hzeros, hat, hfr, hfs, hsig⟩ :=
    input_words (List.replicate 31 0) (UInt8.ofNat v) hhash rfl hlr hls
  have hzero : (List.replicate 31 (0 : UInt8)).all (· == 0) = true := by decide
  rw [ecrecoverRun]
  simp only [hinput, hhead, hzeros, hat, hfr, hfs, hsig, bytesValue_wordBytes, hzero, hvalid]
  rw [if_neg (by simp)]
  rw [compactSignature] at hpub
  rw [hpub]

/-- The word that `ecrecover` returns begins with a zero. -/
theorem head_word (lib : HashLib) (xy : Bytes) :
    (leftPadBytes ((lib.keccak256 xy).drop 12) 32).head? = some 0 := by
  have hlength : ((lib.keccak256 xy).drop 12).length = 20 := by
    rw [List.length_drop, lib.keccak256_length]
  rw [leftPadBytes, hlength]
  rfl

/-- An address begins with an N. -/
theorem pubkeyToAddress_spec (lib : HashLib) (pub : Bytes) : ∃ text,
    lib.newNeatScriptAddr pub = .ok text ∧ text.length = 32 ∧ text.head? = some 78 ∧
      lib.pubkeyToAddress pub = .ok text := by
  obtain ⟨cs, hkept, hlength, hmem⟩ := lib.kept_spec pub
  have heq := lib.newNeatScriptAddr_eq pub
  rw [hkept] at heq
  have hlen := (validateNeatAddr_of_kept hlength hmem).1
  have hsame : bytesToAddress (addressPrefix ++ base58Char 26 :: cs) =
      addressPrefix ++ base58Char 26 :: cs := by
    rw [bytesToAddress, hlen, Nat.sub_self, List.drop_zero, leftPadBytes, hlen]
    rfl
  refine ⟨_, heq, hlen, rfl, ?_⟩
  rw [pubkeyToAddress, heq]
  exact congrArg Except.ok hsame

theorem not_sameAddress (hhash : hash.length = 32) (hv : v = 27 ∨ v = 28)
    (hvalid : validateSignatureValues (UInt8.ofNat v - 27) r s homestead = true) {pub : Bytes}
    (hpub : lib.recoverPubkey hash (compactSignature r s v) = some pub) :
    ¬ lib.SameAddress hash r s v homestead := by
  intro h
  obtain ⟨_, hword, -, haddr⟩ := h pub hpub
  obtain ⟨hr, hs, hvalid'⟩ := valid_bounds hvalid
  obtain ⟨xy, rfl, -⟩ := lib.recoverPubkey_marshalled _ _ _ hpub
  rw [ecrecoverRun_eq hhash hv hr hs hvalid' hpub, Except.ok.injEq, Option.some.injEq] at hword
  obtain ⟨_, -, -, hhead, htext⟩ := lib.pubkeyToAddress_spec (4 :: xy)
  rw [htext, Except.ok.injEq] at haddr
  rw [haddr, ← hword, lib.head_word] at hhead
  cases hhead

/-- **The address that a contract sees.**  Transactions and `PubkeyToAddress` agree about the address
of a key.  The word that `ecrecover` returns is never that address: only where no key is recovered
is there nothing to disagree about. -/
theorem sameAddress_iff (lib : HashLib) (hash : Bytes) (r s v : Nat) (homestead : Bool)
    (hhash : hash.length = 32) (hv : v = 27 ∨ v = 28)
    (hvalid : validateSignatureValues (UInt8.ofNat v - 27) r s homestead = true) :
    lib.SameAddress hash r s v homestead ↔
      lib.recoverPubkey hash (compactSignature r s v) = none := by
  refine ⟨fun h => ?_, fun hnone pub hpub => ?_⟩
  · by_contra hsome
    obtain ⟨pub, hpub⟩ := Option.ne_none_iff_exists'.1 hsome
    exact not_sameAddress hhash hv hvalid hpub h
  · rw [hnone] at hpub
    cases hpub

/-- Some hash functions, and a recovery that finds the same key in every signature or none. -/
def constant (pub : Option Unit) : HashLib where
  hash160 := fun _ => List.replicate 20 1
  checksum := fun _ => List.replicate 4 1
  keccak256 := fun _ => List.replicate 32 1
  recoverPubkey := fun _ _ => pub.map fun _ => 4 :: List.replicate 64 1
  hash160_length := fun _ => rfl
  checksum_length := fun _ => rfl
  keccak256_length := fun _ => rfl
  recoverPubkey_marshalled := by
    intro hash sig key hkey
    obtain ⟨-, -, rfl⟩ := Option.map_eq_some_iff.1 hkey
    exact ⟨_, rfl, rfl⟩

/-- A signature with no key. -/
theorem sameAddress_iff_noKey :
    (constant none).SameAddress (List.replicate 32 0) 1 1 27 true ↔
      (constant none).recoverPubkey (List.replicate 32 0) (compactSignature 1 1 27) = none :=
  sameAddress_iff _ _ 1 1 27 true rfl (.inl rfl) (by decide)

/-- A signature with a key: the contract gets a word that is not the address of the sender. -/
theorem word_is_not_address :
    ¬ (constant (some ())).SameAddress (List.replicate 32 0) 1 1 27 true :=
  not_sameAddress rfl (.inl rfl) (by decide) rfl

end HashLib

end NeatPoS
