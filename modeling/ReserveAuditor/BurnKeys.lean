import ReserveAuditor.WithdrawalParser

/-! The key of a burn: as call data on Ethereum, as an output on MobileCoin, and as the text in
which matching compares the two. -/
namespace ReserveAuditor
open Txn Relational

/-- The text of call data: `0x`, and the digits of the bytes in any letter case. -/
def IsHexText (text : String) (bytes : Bytes) : Prop :=
  ∃ digits, text.toList = '0' :: 'x' :: digits ∧ digits.map Char.toLower = Hex.encodeChars bytes

theorem IsHexText.hexPayload {text : String} {bytes : Bytes} (h : IsHexText text bytes) :
    hexPayload text = some bytes := by
  obtain ⟨digits,htext,hdigits⟩ := h
  have hstrip : stripHexPrefix text = some digits := by
    simp [stripHexPrefix, htext]
  rw [ReserveAuditor.hexPayload, hstrip, Option.bind_some, Hex.decode_eq_some]
  exact hdigits

/-- The last bytes of call data are the key, whatever stands between the signature and them. -/
theorem txOutPubKeyOfAuxData_append {token : AuditedToken} {data : String} {between key : Bytes}
    (hdata : IsHexText data (token.auxBurnFunctionSig.toList ++ between ++ key))
    (hkey : key.length = 32) : AuditedSafeConfig.txOutPubKeyOfAuxData token data = .ok key := by
  refine (txOutPubKeyOfAuxData_eq_ok token data key).mpr ⟨_,hdata.hexPayload,?_,?_,?_⟩
  · rw [List.append_assoc]
    exact List.prefix_append _ _
  · simp only [List.length_append, Vector.length_toList, hkey]
    omega
  · rw [List.length_append, hkey, Nat.add_sub_cancel, List.drop_left]

/-- A withdrawal is parsed with the text of the key that its call data ends in. -/
theorem parse_keyHex {safe : AuditedSafeConfig} {tx : MultiSigTransaction}
    {p : TokenMultiSend} {w : GnosisSafeWithdrawal} {between key : Bytes} (hp : p.Of safe tx)
    (hdata : IsHexText p.aux.data (p.token.auxBurnFunctionSig.toList ++ between ++ key))
    (hkey : key.length = 32) (hw : safe.parseWithdrawalWithPubKeyMultiSigTx tx = .ok w) :
    w.mcTxOutPublicKeyHex = Hex.encode key := by
  rw [parse_eq_of hp] at hw
  obtain ⟨entry,rest,ethTxValue,key',value,amount,-,-,-,hkey',-,-,rfl⟩ :=
    (withdrawal_eq_ok p w).mp hw
  rw [txOutPubKeyOfAuxData_append hdata hkey] at hkey'
  rw [Outcome.ok.inj hkey']
  rfl

/-- Reading a key from its text. -/
theorem mcTxOutPublicKey_encode {Key : Type} (keyTryFrom : Bytes → Except String Key)
    {w : GnosisSafeWithdrawal} {key : Bytes} (hw : w.mcTxOutPublicKeyHex = Hex.encode key) :
    w.mcTxOutPublicKey keyTryFrom = (keyTryFrom key).mapError Error.key := by
  rw [GnosisSafeWithdrawal.mcTxOutPublicKey, hw, Hex.encode, String.toList_ofList,
    Hex.decode_encodeChars]

/-- A burn was stored for an output of the block. -/
structure BurnStored (ext : Externals) (b : UInt64) (ts : Option DateTime) (txOut : TxOut)
    (row : BurnTxOut) : Prop where
  stored : ∃ row₀ n, BurnTxOut.fromCoreTxOut ext b ts txOut = .ok row₀ ∧ row = Record.withId row₀ n

theorem BurnStored.publicKeyHex {ext : Externals} {b : UInt64} {ts : Option DateTime}
    {txOut : TxOut} {row : BurnTxOut} (h : BurnStored ext b ts txOut row) :
    row.publicKeyHex = Hex.encode txOut.publicKey := by
  obtain ⟨row₀,n,hrow,rfl⟩ := h.stored
  have hsome := (Outcome.except_toOption_eq_some _ _).mpr hrow
  rw [fromCoreTxOut_toOption, Option.map_eq_some_iff] at hsome
  obtain ⟨amount,-,rfl⟩ := hsome
  rfl

/-- The column of keys is unique, so a search by key finds a burn exactly by its own key. -/
theorem findBurn_eq_some {s : Db} {b : BurnTxOut} (hb : b ∈ s.burnTxOuts.rows) (keyHex : String) :
    BurnTxOut.findUnauditedBurnTxOutByPublicKey keyHex s = some b ↔
      b.publicKeyHex = keyHex ∧ BurnTxOut.isAudited s b = false := by
  constructor
  · intro h
    exact (found_of_find? h).2
  · rintro ⟨hkey,haudit⟩
    have hsome : (BurnTxOut.findUnauditedBurnTxOutByPublicKey keyHex s).isSome = true :=
      List.find?_isSome.mpr ⟨b,hb,by simp [hkey, haudit]⟩
    obtain ⟨b',hb'⟩ := Option.isSome_iff_exists.mp hsome
    obtain ⟨hmem,hkey',-⟩ := found_of_find? hb'
    by_contra hne
    have hbb : b' ≠ b := fun h => hne (h ▸ hb')
    -- the column of keys is unique, so the burn found is `b` itself
    rcases s.burnTxOuts.clash_of_ne hmem hb hbb with h | h <;>
      simp [Record.clash, hkey, hkey'] at h

/-- A word of the contract ABI. -/
def abiWord (n : UInt8) : Bytes := List.replicate 31 0 ++ [n]

/-- The ABI encoding of `emitBytes(k)` for 32 bytes: the signature, the offset of the bytes,
their number, and the bytes. -/
def emitBytesData (sig k : Bytes) : Bytes := sig ++ (abiWord 32 ++ abiWord 32) ++ k

/-- The key that the call data of a withdrawal ends in is the one that the withdrawal has, and a
burn and a withdrawal find each other by text exactly if their keys are the same. -/
theorem burn_keys_meet {Key : Type} (ext : Externals) (keyTryFrom : Bytes → Except String Key)
    (keyBytes : Key → Bytes)
    (hkeys : ∀ bytes : Bytes, bytes.length = 32 →
      ∃ key, keyTryFrom bytes = .ok key ∧ keyBytes key = bytes)
    (safe : AuditedSafeConfig) (tx : MultiSigTransaction) (p : TokenMultiSend) (hp : p.Of safe tx)
    (w : GnosisSafeWithdrawal) (hw : safe.parseWithdrawalWithPubKeyMultiSigTx tx = .ok w) :
    (∀ between k' : Bytes, k'.length = 32 →
      IsHexText p.aux.data (p.token.auxBurnFunctionSig.toList ++ between ++ k') →
        (w.mcTxOutPublicKeyHex.toList.length = 64 ∧
          ∀ c ∈ w.mcTxOutPublicKeyHex.toList, Hex.IsDigit c) ∧
        (∃ key, w.mcTxOutPublicKey keyTryFrom = .ok key ∧ keyBytes key = k') ∧
        ∀ s : Db, ∀ b ∈ s.burnTxOuts.rows, ∀ blockIndex timestamp txOut,
          BurnStored ext blockIndex timestamp txOut b → txOut.publicKey.length = 32 →
          (BurnTxOut.findUnauditedBurnTxOutByPublicKey w.mcTxOutPublicKeyHex s = some b ↔
            txOut.publicKey = k' ∧ BurnTxOut.isAudited s b = false) ∧
          ∀ w', GnosisSafeWithdrawal.findUnauditedWithdrawalByPublicKey b.publicKeyHex s = some w' →
            ∃ key, w'.mcTxOutPublicKey keyTryFrom = .ok key ∧ keyBytes key = txOut.publicKey) ∧
    ∀ k : Bytes, k.length = 32 →
      IsHexText p.aux.data (emitBytesData p.token.auxBurnFunctionSig.toList k) →
        ∃ key, w.mcTxOutPublicKey keyTryFrom = .ok key ∧ keyBytes key = k := by
  -- a column that holds 32 encoded bytes reads as the key with these bytes
  have hread {w : GnosisSafeWithdrawal} {k : Bytes} (hk : k.length = 32)
      (hhex : w.mcTxOutPublicKeyHex = Hex.encode k) :
      ∃ key, w.mcTxOutPublicKey keyTryFrom = .ok key ∧ keyBytes key = k := by
    obtain ⟨key,hkey,hbytes⟩ := hkeys k hk
    refine ⟨key,?_,hbytes⟩
    rw [mcTxOutPublicKey_encode keyTryFrom hhex, hkey]
    rfl
  refine ⟨fun between k' hk' hdata => ?_,fun k hk hdata => ?_⟩
  · have hhex := parse_keyHex hp hdata hk' hw
    have htext : w.mcTxOutPublicKeyHex.toList = Hex.encodeChars k' := by
      rw [hhex, Hex.encode, String.toList_ofList]
    refine ⟨⟨?_,fun c hc => ?_⟩,hread hk' hhex,
      fun s b hb _ _ txOut hstores hlen => ⟨?_,?_⟩⟩
    · rw [htext, Hex.length_encodeChars, hk']
    · rw [htext] at hc
      exact Hex.isDigit_of_mem_encodeChars hc
    · rw [findBurn_eq_some hb, hstores.publicKeyHex, hhex, Hex.encode_injective.eq_iff]
    · intro w' hw'
      have hfound : w'.mcTxOutPublicKeyHex = b.publicKeyHex := (found_of_find? hw').2.1
      exact hread hlen (hfound.trans hstores.publicKeyHex)
  · exact hread hk (parse_keyHex hp hdata hk hw)

/-- The burn of five millionths whose key the withdrawal of five records. -/
def burnOfFive : BurnTxOut :=
  ⟨none,Int64.ofNat 0,none,Int64.ofNat 1,Int64.ofNat 5,Hex.encode (List.replicate 32 3),
    Reference.externals.encodeTxOut (Reference.burnOf (List.replicate 32 3) 5)⟩

def dbOfFive : Db :=
  { Db.empty with burnTxOuts := Table.empty.append burnOfFive (by simp [Table.empty]) }

theorem burnOfFive_stored : BurnStored Reference.externals 0 none
    (Reference.burnOf (List.replicate 32 3) 5) (Record.withId burnOfFive 1) := by
  refine ⟨burnOfFive,1,?_,rfl⟩
  have hmatch : Reference.externals.viewKeyMatch (Reference.burnOf (List.replicate 32 3) 5) =
      .ok ⟨5,1⟩ := Reference.readMessage_encode Reference.amountCodec _
  simp only [BurnTxOut.fromCoreTxOut, hmatch]
  rfl

theorem partsOfFive_hexText : IsHexText partsOfFive.aux.data
    (partsOfFive.token.auxBurnFunctionSig.toList ++ [] ++ List.replicate 32 3) :=
  ⟨_,rfl,by decide +kernel⟩

/-- The withdrawal finds the burn, and its key reads as the 32 bytes. -/
theorem burnOfFive_found : ∃ w, Reference.safeA.parseWithdrawalWithPubKeyMultiSigTx
      (withdrawalOfFive [transferOf 5000000000000]) = .ok w ∧
    w.mcTxOutPublicKey (fun bytes => .ok bytes) = .ok (List.replicate 32 3) ∧
    BurnTxOut.findUnauditedBurnTxOutByPublicKey w.mcTxOutPublicKeyHex dbOfFive =
      some (Record.withId burnOfFive 1) := by
  obtain ⟨w,hw⟩ := withdrawalOfFive_returns (transferOf 5000000000000) [] _ rfl
  obtain ⟨hkeys,-⟩ := burn_keys_meet Reference.externals (fun bytes => .ok bytes) id
    (fun bytes _ => ⟨bytes,rfl,rfl⟩) Reference.safeA _ partsOfFive (partsOfFive_of _) w hw
  obtain ⟨-,⟨key,hkey,rfl⟩,hmeet⟩ := hkeys [] (List.replicate 32 3) rfl partsOfFive_hexText
  obtain ⟨hfind,-⟩ := hmeet dbOfFive (Record.withId burnOfFive 1) (by simp [dbOfFive, Table.append,
    Table.empty, Table.nextKey]) _ _ _ burnOfFive_stored rfl
  exact ⟨w,hw,hkey,hfind.mpr ⟨rfl,rfl⟩⟩

end ReserveAuditor
