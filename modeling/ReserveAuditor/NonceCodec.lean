import ReserveAuditor.Models

/-! What the nonce of a mint says (`mint_tx_nonce.rs`), and the nonce that matching expects for a
deposit. -/
namespace ReserveAuditor

/-- Data structure for representing what is encoded in a mint tx nonce. -/
inductive MintTxNonce where
  /-- A mint backed by a deposit to a Gnosis Safe on the Ethereum blockchain. -/
  | ethereumGnosisDeposit (ethTxHash : EthTxHash)
deriving DecidableEq

namespace MintTxNonce

def nonceLength : ℕ := 64
def identifierLen : ℕ := 1
def ethereumGnosisDepositIdentifier : Bytes := [0x01]

/-- Convert to the byte representation. -/
def toBytes : MintTxNonce → Bytes
  | ethereumGnosisDeposit ethTxHash => mintTxNonceBytes ethTxHash

/-- `TryFrom<&[u8]>`. What follows the hash is not looked at. -/
def tryFrom (bytes : Bytes) : Except Error MintTxNonce :=
  if bytes.length ≠ nonceLength then .error (.invalidLength nonceLength bytes.length)
  else if bytes.take identifierLen = ethereumGnosisDepositIdentifier then do
    let ethTxHash ← (EthTxHash.tryFrom ((bytes.drop identifierLen).take 32)).mapError .gnosis
    pure (ethereumGnosisDeposit ethTxHash)
  else .error (.invalidNonceIdentifier (bytes.take identifierLen))

/-- The parts of a byte string that has the length and the identifier of a nonce. -/
theorem exists_parts {bytes : Bytes} (hlen : bytes.length = nonceLength)
    (hid : bytes.take identifierLen = ethereumGnosisDepositIdentifier) :
    ∃ (h : EthTxHash) (padding : Bytes), h.bytes = (bytes.drop identifierLen).take 32 ∧
      padding.length = 31 ∧ bytes = 0x01 :: h.bytes ++ padding := by
  rw [nonceLength] at hlen
  have hhash : ((bytes.drop identifierLen).take 32).length = 32 := by
    simp [hlen, identifierLen]
  refine ⟨⟨_,hhash⟩,bytes.drop 33,rfl,by simp [hlen],?_⟩
  -- one byte of identifier, 32 of the hash, and the padding
  calc
    bytes = bytes.take 1 ++ ((bytes.drop 1).take 32 ++ (bytes.drop 1).drop 32) := by
      rw [List.take_append_drop, List.take_append_drop]
    _ = 0x01 :: (bytes.drop 1).take 32 ++ bytes.drop 33 := by
      rw [show bytes.take 1 = [0x01] from hid, List.drop_drop]
      rfl

theorem drop_parts (h : EthTxHash) (padding : Bytes) :
    (0x01 :: h.bytes ++ padding).drop 33 = padding := by
  rw [List.cons_append, List.drop_succ_cons, ← h.len, List.drop_left]

/-- The bytes that decode to a hash: the identifier, the hash and any 31 bytes. -/
theorem tryFrom_eq_ok (bytes : Bytes) (h : EthTxHash) :
    tryFrom bytes = .ok (ethereumGnosisDeposit h) ↔
      ∃ padding, padding.length = 31 ∧ bytes = 0x01 :: h.bytes ++ padding := by
  constructor
  · intro hok
    unfold tryFrom at hok
    split at hok
    · simp at hok
    · rename_i hlen
      split at hok
      · rename_i hid
        -- length and identifier are right, so the middle part is the hash
        obtain ⟨h',padding,hh',hp,hbytes⟩ := exists_parts (not_not.mp hlen) hid
        have htry : EthTxHash.tryFrom h'.bytes = .ok h' := dif_pos h'.len
        rw [← hh', htry] at hok
        obtain rfl : h' = h := by
          simpa [Except.mapError, bind, Except.bind, pure, Except.pure] using hok
        exact ⟨padding,hp,hbytes⟩
      · simp at hok
  · rintro ⟨padding,hp,rfl⟩
    have hlen : (0x01 :: h.bytes ++ padding).length = nonceLength := by
      simp [h.len, hp, nonceLength]
    have hhash : ((0x01 :: h.bytes ++ padding).drop identifierLen).take 32 = h.bytes := by
      rw [identifierLen, List.cons_append, List.drop_one, List.tail_cons, ← h.len, List.take_left]
    have hid : (0x01 :: h.bytes ++ padding).take identifierLen =
        ethereumGnosisDepositIdentifier := by
      simp [identifierLen, ethereumGnosisDepositIdentifier]
    have htry : EthTxHash.tryFrom h.bytes = .ok h := dif_pos h.len
    simp only [tryFrom, hlen, ne_eq, not_true, if_false, hid, if_true, hhash, htry]
    rfl

/-- A hash is read back from its nonce. -/
theorem tryFrom_toBytes (h : EthTxHash) :
    tryFrom (toBytes (ethereumGnosisDeposit h)) = .ok (ethereumGnosisDeposit h) :=
  (tryFrom_eq_ok _ h).mpr ⟨List.replicate 31 0,by simp,rfl⟩

/-- Whatever hash the bytes decode to, they are the nonce of its deposits, down to the text that
matching compares. -/
def MeansWhatMatches (bytes : Bytes) : Prop :=
  ∀ h, tryFrom bytes = .ok (ethereumGnosisDeposit h) →
    bytes = toBytes (ethereumGnosisDeposit h) ∧
    ∀ id date value block safe token source amount, Hex.encode bytes =
      (GnosisSafeDeposit.new id h date value block safe token source
        amount).expectedMcMintTxNonceHex

/-- If the bytes have the length and the identifier of a nonce, they end in 31 zeros. -/
def ZeroPadded (bytes : Bytes) : Prop :=
  bytes.length = nonceLength → bytes.take identifierLen = ethereumGnosisDepositIdentifier →
    bytes.drop 33 = List.replicate 31 0

/-- Each hash is read back from its nonce, and different hashes give different expected nonces; and
exactly the byte strings that are zero padded mean what they match. -/
theorem nonce_codec_iff (h h' : EthTxHash) (bytes : Bytes) :
    (tryFrom (toBytes (ethereumGnosisDeposit h)) = .ok (ethereumGnosisDeposit h) ∧
      (toBytes (ethereumGnosisDeposit h)).length = nonceLength) ∧
    (∀ id id' date date' value value' block block' safe safe' token token' source source'
      amount amount',
      (GnosisSafeDeposit.new id h date value block safe token source
        amount).expectedMcMintTxNonceHex =
      (GnosisSafeDeposit.new id' h' date' value' block' safe' token' source'
        amount').expectedMcMintTxNonceHex ↔ h = h') ∧
    (MeansWhatMatches bytes ↔ ZeroPadded bytes) := by
  refine ⟨⟨tryFrom_toBytes h,mintTxNonceBytes_length h⟩,?_,?_,?_⟩
  · intros
    exact (Hex.encode_injective.comp mintTxNonceBytes_injective).eq_iff
  -- what is decoded encodes with a padding of zeros
  · intro hm hlen hid
    obtain ⟨h,padding,-,hp,rfl⟩ := exists_parts hlen hid
    obtain ⟨hb,-⟩ := hm h ((tryFrom_eq_ok _ h).mpr ⟨padding,hp,rfl⟩)
    have hpad : padding = List.replicate 31 0 := by
      simpa [toBytes, mintTxNonceBytes] using hb
    rw [drop_parts, hpad]
  · intro hz h hok
    obtain ⟨padding,hp,rfl⟩ := (tryFrom_eq_ok _ h).mp hok
    have hpad : padding = List.replicate 31 0 := by
      rw [← drop_parts h padding]
      exact hz (by simp [h.len, hp, nonceLength])
        (by simp [identifierLen, ethereumGnosisDepositIdentifier])
    subst hpad
    exact ⟨rfl,fun _ _ _ _ _ _ _ _ => rfl⟩

/-- The identifier and a hash, followed by bytes that are not zero. -/
def paddedNonce : Bytes := 0x01 :: List.replicate 63 0x11

/-- The bytes decode to the hash, but they are not its nonce. -/
theorem paddedNonce_not_canonical :
    ∃ h, tryFrom paddedNonce = .ok (ethereumGnosisDeposit h) ∧
      paddedNonce ≠ toBytes (ethereumGnosisDeposit h) :=
  ⟨⟨List.replicate 32 0x11,rfl⟩,rfl,by decide⟩

end MintTxNonce
end ReserveAuditor
