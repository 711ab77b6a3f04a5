import Mathlib.Data.Nat.Digits.Lemmas
import Mathlib.Tactic.NormNum
import NeatPoS.Types.Basic

/-!
# The format of an address

`NewNeatScriptAddr` and `ValidateNeatAddr` (`crypto/crypto.go`).  An address is a text of 32
characters: the letters NEA, and then the first 29 characters of what base58 makes of a version
byte, a hash of 20 bytes and a checksum of 4.

base58 comes from btcutil.  It writes its argument as a number in the base 58, and before that a `1`
for each leading zero byte.  The checksum and the hashes are parameters (`HashLib`), of which only
the lengths are known.

The number that is written has 34 digits, and the first of them is 26, which is the letter T: this is
where the fourth letter of every address comes from.  The last five digits are dropped.  They are
worth less than the checksum, so that they separate what the checksum does not.
-/

set_option autoImplicit false

namespace NeatPoS

/-! ## Numbers and bytes -/

/-- The number that some bytes stand for, the most significant one first: `big.Int.SetBytes`. -/
def bytesValue (b : Bytes) : Nat := Nat.ofDigits 256 (b.reverse.map UInt8.toNat)

theorem bytesValue_lt (b : Bytes) : bytesValue b < 256 ^ b.length := by
  have h : ∀ x ∈ b.reverse.map UInt8.toNat, x < 256 := by
    intro x hx
    obtain ⟨byte, -, rfl⟩ := List.mem_map.1 hx
    exact byte.toNat_lt
  have hlt := Nat.ofDigits_lt_base_pow_length (by decide) h
  rwa [List.length_map, List.length_reverse] at hlt

theorem bytesValue_append (b c : Bytes) :
    bytesValue (b ++ c) = bytesValue b * 256 ^ c.length + bytesValue c := by
  rw [bytesValue, List.reverse_append, List.map_append, Nat.ofDigits_append, List.length_map,
    List.length_reverse, Nat.add_comm, Nat.mul_comm]
  rfl

/-! ## base58 -/

/-- `bs58Str`, which is also the alphabet of btcutil. -/
def bs58Str : Bytes := asciiBytes "123456789ABCDEFGHJKLMNPQRSTUVWXYZabcdefghijkmnopqrstuvwxyz"

/-- The character of a digit. -/
def base58Char (digit : Nat) : UInt8 := bs58Str.getD digit 0

/-- `base58.Encode`. -/
def base58Encode (b : Bytes) : Bytes :=
  (b.takeWhile (· == 0)).map (fun _ => base58Char 0) ++
    (Nat.digits 58 (bytesValue b)).reverse.map base58Char

/-- What is computed outside the repository.  `recoverPubkey` finds the key of a signature, as the
65 bytes that `elliptic.Marshal` makes of it. -/
structure HashLib where
  hash160 : Bytes → Bytes
  checksum : Bytes → Bytes
  keccak256 : Bytes → Bytes
  recoverPubkey : Bytes → Bytes → Option Bytes
  hash160_length : ∀ b, (hash160 b).length = 20
  checksum_length : ∀ b, (checksum b).length = 4
  keccak256_length : ∀ b, (keccak256 b).length = 32
  recoverPubkey_marshalled : ∀ hash sig pub, recoverPubkey hash sig = some pub →
    ∃ xy : Bytes, pub = 4 :: xy ∧ xy.length = 64

namespace HashLib

variable (lib : HashLib)

/-- `base58.CheckEncode`, which `encodeAddress` calls. -/
def encodeAddress (hash160 : Bytes) (version : UInt8) : Bytes :=
  base58Encode (version :: hash160 ++ lib.checksum (version :: hash160))

/-! ## Addresses -/

/-- `scriptVersion`. -/
def scriptVersion : UInt8 := 0x42

/-- `addressPrefix`. -/
def addressPrefix : Bytes := asciiBytes "NEA"

/-- `NewNeatScriptAddr`.  A text of less than 29 characters would be a panic. -/
def newNeatScriptAddr (script : Bytes) : Except Panic Bytes :=
  let strArray := lib.encodeAddress (lib.hash160 script) scriptVersion
  if strArray.length < 29 then .error .indexOutOfRange
  else .ok (addressPrefix ++ strArray.take 29)

end HashLib

/-- `ValidateNeatAddr`.  A character of several bytes is not in the alphabet, and neither is one of
its bytes. -/
def validateNeatAddr (input : Bytes) : Bool :=
  input.length == 32 && input.take 4 == asciiBytes "NEAT" &&
    (input.drop 3).all fun v => bs58Str.contains v

/-! ## What is written -/

theorem base58Char_mem {d : Nat} (h : d < 58) : base58Char d ∈ bs58Str := by
  have hall : ∀ d, d < 58 → base58Char d ∈ bs58Str := by decide
  exact hall d h

theorem base58Char_inj {d d' : Nat} (hd : d < 58) (hd' : d' < 58)
    (h : base58Char d = base58Char d') : d = d' := by
  have hall : ∀ d, d < 58 → bs58Str.idxOf (base58Char d) = d := by decide
  rw [← hall d hd, h, hall d' hd']

theorem map_base58Char_inj {ds ds' : List Nat} (hds : ∀ d ∈ ds, d < 58)
    (hds' : ∀ d ∈ ds', d < 58) (h : ds.map base58Char = ds'.map base58Char) : ds = ds' := by
  induction ds generalizing ds' with
  | nil => exact (List.map_eq_nil_iff.1 h.symm).symm
  | cons d _ ih =>
    cases ds' with
    | nil => simp at h
    | cons d' =>
      rw [List.map_cons, List.map_cons, List.cons.injEq] at h
      have hd := base58Char_inj (hds d List.mem_cons_self) (hds' d' List.mem_cons_self) h.1
      have htail := ih (fun x hx => hds x (List.mem_cons_of_mem _ hx))
        (fun x hx => hds' x (List.mem_cons_of_mem _ hx)) h.2
      rw [hd, htail]

namespace HashLib

variable {lib : HashLib}

/-- The number that is written for a script. -/
def addrValue (lib : HashLib) (script : Bytes) : Nat :=
  let payload := scriptVersion :: lib.hash160 script
  bytesValue (payload ++ lib.checksum payload)

/-- The hash and the checksum are the remainder of the number. -/
theorem addrValue_eq (lib : HashLib) (script : Bytes) : ∃ c < 2 ^ 32,
    lib.addrValue script = 66 * 2 ^ 192 + bytesValue (lib.hash160 script) * 2 ^ 32 + c := by
  refine ⟨bytesValue (lib.checksum (scriptVersion :: lib.hash160 script)), ?_, ?_⟩
  · have hlt := bytesValue_lt (lib.checksum (scriptVersion :: lib.hash160 script))
    rwa [lib.checksum_length] at hlt
  · have hversion : bytesValue [scriptVersion] = 66 := by decide
    rw [addrValue, bytesValue_append, lib.checksum_length, ← List.singleton_append,
      bytesValue_append, lib.hash160_length, hversion]
    omega

theorem hashValue_lt (lib : HashLib) (script : Bytes) :
    bytesValue (lib.hash160 script) < 2 ^ 160 := by
  have hlt := bytesValue_lt (lib.hash160 script)
  rwa [lib.hash160_length] at hlt

/-- The number is below 67 times the power of 256 that the version stands for. -/
theorem addrValue_bounds (lib : HashLib) (script : Bytes) :
    66 * 2 ^ 192 ≤ lib.addrValue script ∧ lib.addrValue script < 67 * 2 ^ 192 := by
  obtain ⟨c, hc, heq⟩ := lib.addrValue_eq script
  have hlt := lib.hashValue_lt script
  omega

theorem length_digits (lib : HashLib) (script : Bytes) :
    (Nat.digits 58 (lib.addrValue script)).length = 34 := by
  obtain ⟨hlow, hhigh⟩ := lib.addrValue_bounds script
  have hle : (Nat.digits 58 (lib.addrValue script)).length ≤ 34 :=
    (Nat.digits_length_le_iff (by decide) _).2 (lt_of_lt_of_le hhigh (by norm_num))
  have hgt : 33 < (Nat.digits 58 (lib.addrValue script)).length :=
    (Nat.lt_digits_length_iff (by decide) _).2 (le_trans (by norm_num) hlow)
  omega

/-- The first digit is that of the letter T. -/
theorem first_digit (lib : HashLib) (script : Bytes) :
    (Nat.digits 58 (lib.addrValue script)).getD 33 0 = 26 := by
  obtain ⟨hlow, hhigh⟩ := lib.addrValue_bounds script
  have hdiv : lib.addrValue script / 58 ^ 33 = 26 :=
    Nat.div_eq_of_lt_le (le_trans (by norm_num) hlow) (lt_of_lt_of_le hhigh (by norm_num))
  rw [Nat.getD_digits _ _ (by decide), hdiv]

/-- The version is not zero, so that no character is written before the number. -/
theorem encodeAddress_eq (lib : HashLib) (script : Bytes) :
    lib.encodeAddress (lib.hash160 script) scriptVersion =
      (Nat.digits 58 (lib.addrValue script)).reverse.map base58Char := by
  rw [encodeAddress, base58Encode, List.cons_append, List.takeWhile_cons_of_neg (by decide)]
  rfl

/-- The digits that are kept are those of the number without its last five. -/
theorem take_encodeAddress (lib : HashLib) (script : Bytes) :
    (lib.encodeAddress (lib.hash160 script) scriptVersion).take 29 =
      ((Nat.digits 58 (lib.addrValue script)).drop 5).reverse.map base58Char := by
  rw [encodeAddress_eq, ← List.map_take, List.take_reverse, length_digits]

theorem newNeatScriptAddr_eq (lib : HashLib) (script : Bytes) :
    lib.newNeatScriptAddr script = .ok (addressPrefix ++
      ((Nat.digits 58 (lib.addrValue script)).drop 5).reverse.map base58Char) := by
  have hlength : ¬ (lib.encodeAddress (lib.hash160 script) scriptVersion).length < 29 := by
    rw [encodeAddress_eq, List.length_map, List.length_reverse, length_digits]
    decide
  rw [newNeatScriptAddr]
  simp only [if_neg hlength, take_encodeAddress]

theorem digits_lt (lib : HashLib) (script : Bytes) :
    ∀ d ∈ (Nat.digits 58 (lib.addrValue script)).drop 5, d < 58 := fun _ hd =>
  Nat.digits_lt_base (by decide) (List.mem_of_mem_drop hd)

/-- The digits that are kept end with the first one of the number. -/
theorem drop_digits (lib : HashLib) (script : Bytes) :
    ∃ ds : List Nat, (Nat.digits 58 (lib.addrValue script)).drop 5 = ds ++ [26] ∧
      ds.length = 28 := by
  have hlength := lib.length_digits script
  have hfirst := lib.first_digit script
  generalize Nat.digits 58 (lib.addrValue script) = digits at hlength hfirst
  have hlast : digits.drop 33 = [26] := by
    rw [List.drop_eq_getElem_cons (by omega), List.drop_of_length_le (by omega), ← hfirst,
      List.getD_eq_getElem?_getD, List.getElem?_eq_getElem (by omega), Option.getD_some]
  refine ⟨(digits.take 33).drop 5, ?_, by rw [List.length_drop, List.length_take, hlength]; rfl⟩
  rw [← hlast, ← List.drop_append_of_le_length (by rw [List.length_take, hlength]; decide),
    List.take_append_drop]

/-- The kept characters are 29 of the alphabet, and the first one is the T. -/
theorem kept_spec (lib : HashLib) (script : Bytes) :
    ∃ cs : Bytes, ((Nat.digits 58 (lib.addrValue script)).drop 5).reverse.map base58Char =
      base58Char 26 :: cs ∧ cs.length = 28 ∧ ∀ c ∈ cs, c ∈ bs58Str := by
  have hdigits := lib.digits_lt script
  obtain ⟨ds, hds, hlength⟩ := lib.drop_digits script
  rw [hds] at hdigits ⊢
  refine ⟨ds.reverse.map base58Char, by simp, ?_, ?_⟩
  · rw [List.length_map, List.length_reverse, hlength]
  · intro c hc
    obtain ⟨d, hd, rfl⟩ := List.mem_map.1 hc
    exact base58Char_mem (hdigits d (List.mem_append_left _ (List.mem_reverse.1 hd)))

/-- What is written is accepted. -/
theorem validateNeatAddr_of_kept {cs : Bytes} (hlength : cs.length = 28)
    (hmem : ∀ c ∈ cs, c ∈ bs58Str) :
    (addressPrefix ++ base58Char 26 :: cs).length = 32 ∧
      validateNeatAddr (addressPrefix ++ base58Char 26 :: cs) = true := by
  have hlen : (addressPrefix ++ base58Char 26 :: cs).length = 32 := by
    rw [List.length_append, List.length_cons, hlength]
    rfl
  have hhead : (addressPrefix ++ base58Char 26 :: cs).take 4 = asciiBytes "NEAT" := by
    rw [List.append_cons, List.take_append_of_le_length (by decide)]
    decide
  have hrest : ((addressPrefix ++ base58Char 26 :: cs).drop 3).all
      (fun v => bs58Str.contains v) = true := by
    have hdrop : addressPrefix.drop 3 = [] := by decide
    rw [List.drop_append_of_le_length (by decide), hdrop, List.nil_append, List.all_cons,
      Bool.and_eq_true, List.all_eq_true]
    exact ⟨by decide, fun c hc => List.contains_iff_mem.2 (hmem c hc)⟩
  refine ⟨hlen, ?_⟩
  rw [validateNeatAddr, hlen, hhead, hrest]
  decide

/-- Scripts that share an address have numbers that differ in the last five digits only. -/
theorem addrValue_div_of_eq {script script' : Bytes}
    (h : lib.newNeatScriptAddr script = lib.newNeatScriptAddr script') :
    lib.addrValue script / 58 ^ 5 = lib.addrValue script' / 58 ^ 5 := by
  rw [newNeatScriptAddr_eq, newNeatScriptAddr_eq, Except.ok.injEq, List.append_cancel_left_eq,
    List.map_reverse, List.map_reverse, List.reverse_inj] at h
  have hdigits := map_base58Char_inj (lib.digits_lt script) (lib.digits_lt script') h
  rw [Nat.self_div_pow_eq_ofDigits_drop 5 _ (by decide), hdigits,
    ← Nat.self_div_pow_eq_ofDigits_drop 5 _ (by decide)]

/-- **The format of an address.**  Every script has one, of the length and with the characters that
are checked, and the scripts that share an address have hashes that differ by one at most. -/
theorem address_format (lib : HashLib) :
    (∀ script, ∃ addr, lib.newNeatScriptAddr script = .ok addr ∧ addr.length = 32 ∧
      validateNeatAddr addr = true) ∧
    ∀ script script', lib.newNeatScriptAddr script = lib.newNeatScriptAddr script' →
      bytesValue (lib.hash160 script) ≤ bytesValue (lib.hash160 script') + 1 ∧
        bytesValue (lib.hash160 script') ≤ bytesValue (lib.hash160 script) + 1 := by
  refine ⟨fun script => ?_, fun script script' h => ?_⟩
  · obtain ⟨cs, hkept, hlength, hmem⟩ := lib.kept_spec script
    refine ⟨_, lib.newNeatScriptAddr_eq script, ?_⟩
    rw [hkept]
    exact validateNeatAddr_of_kept hlength hmem
  · have hdiv := addrValue_div_of_eq h
    obtain ⟨c, hc, heq⟩ := lib.addrValue_eq script
    obtain ⟨c', hc', heq'⟩ := lib.addrValue_eq script'
    rw [heq, heq'] at hdiv
    omega

end HashLib

end NeatPoS
