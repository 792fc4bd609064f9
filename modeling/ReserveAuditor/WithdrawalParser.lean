import ReserveAuditor.Reference

/-! The multi-sig transactions that the withdrawal parser accepts, and what ties a withdrawal
to the transfer that it stands for. -/
namespace ReserveAuditor
open Txn

/-! ### Token multi-sends -/

/-- The parts of a multi-send that moves an audited token. -/
structure TokenMultiSend where
  transfer : ValueDecoded
  aux : ValueDecoded
  token : AuditedToken
  recipient : DataDecodedParameter
  amount : DataDecodedParameter

namespace TokenMultiSend

/-- A transaction is a multi-send of two entries, and the first one calls `transfer` of an
audited token. -/
def Of (p : TokenMultiSend) (safe : AuditedSafeConfig) (tx : MultiSigTransaction) : Prop :=
  ∃ data parameter call, tx.dataDecoded = some data ∧ data.method = "multiSend" ∧
    data.parameters = [parameter] ∧ parameter.valueDecoded = some [p.transfer,p.aux] ∧
    safe.getTokenByEthContractAddr p.transfer.toAddr = some p.token ∧
    p.transfer.dataDecoded = some call ∧ call.method = "transfer" ∧
    call.parameters = [p.recipient,p.amount]

/-- The second entry calls the auxiliary contract of the token with the signature of its
function and at least 32 bytes after it. -/
def RecordsKey (p : TokenMultiSend) : Prop :=
  (p.aux.toAddr == p.token.auxBurnContractAddr) = true ∧
    ∃ bytes, hexPayload p.aux.data = some bytes ∧
      p.token.auxBurnFunctionSig.toList <+: bytes ∧ 36 ≤ bytes.length

/-- The amount is a `u128`, and a `u64` holds it after the truncation. -/
def AmountFits (p : TokenMultiSend) (safe : AuditedSafeConfig) : Prop :=
  ∃ value, parseU128 p.amount.value = some value ∧
    value.toNat/10^(p.token.decimals.toNat-safe.tokenDecimalsMax.toNat) < 2^64

/-- The amount is a `u128` whose truncation succeeds. -/
def Truncates (p : TokenMultiSend) (safe : AuditedSafeConfig) : Prop :=
  ∃ value amount, parseU128 p.amount.value = some value ∧
    truncateValue value p.token.decimals safe.tokenDecimalsMax = .ok amount

/-- What the parser does with a token multi-send. -/
def withdrawal (p : TokenMultiSend) (safe : AuditedSafeConfig) (tx : MultiSigTransaction) :
    Outcome GnosisError GnosisSafeWithdrawal := do
  let tokenTransfer ← Outcome.unwrap "index out of bounds" tx.transferData[0]?
  let ethTxValue ← Outcome.unwrap "called `Option::unwrap()` on a `None` value" tokenTransfer.value
  Outcome.ensure ((p.aux.toAddr == p.token.auxBurnContractAddr) = true)
    (.apiResultParse s!"aux contract destination mismatch: got {p.aux.toAddr}, expected {p.token.auxBurnContractAddr}")
  let txOutPubKey ← AuditedSafeConfig.txOutPubKeyOfAuxData p.token p.aux.data
  let value ← Outcome.unwrap "called `Result::unwrap()` on an `Err` value"
    (parseU128 p.amount.value)
  let amount ← truncateValue value p.token.decimals safe.tokenDecimalsMax
  pure (GnosisSafeWithdrawal.new none tx.txHash tx.executionDate ethTxValue tx.ethBlockNumber
    tx.safe p.transfer.toAddr tokenTransfer.toAddr amount (Hex.encode txOutPubKey))

end TokenMultiSend

variable {safe : AuditedSafeConfig} {tx : MultiSigTransaction}

theorem TokenMultiSend.Of.unique {p q : TokenMultiSend} (hp : p.Of safe tx) (hq : q.Of safe tx) :
    p = q := by
  obtain ⟨data,parameter,call,hdata,-,hparams,hvalues,htoken,hcall,-,hargs⟩ := hp
  obtain ⟨data',parameter',call',hdata',-,hparams',hvalues',htoken',hcall',-,hargs'⟩ := hq
  obtain ⟨transfer,aux,token,recipient,amount⟩ := p
  obtain ⟨transfer',aux',token',recipient',amount'⟩ := q
  simp_all

theorem parse_eq_of {p : TokenMultiSend} (hp : p.Of safe tx) :
    safe.parseWithdrawalWithPubKeyMultiSigTx tx = p.withdrawal safe tx := by
  obtain ⟨data,parameter,call,hdata,hmethod,hparams,hvalues,htoken,hcall,htransfer,hargs⟩ := hp
  have hfind := htoken
  rw [AuditedSafeConfig.getTokenByEthContractAddr] at hfind
  have hone : ([parameter] : List DataDecodedParameter).length = 1 := rfl
  have htwo : [p.transfer,p.aux].length = 2 := rfl
  have htwo' : [p.recipient,p.amount].length = 2 := rfl
  simp only [AuditedSafeConfig.parseWithdrawalWithPubKeyMultiSigTx, hdata, Outcome.okOr_some,
    Outcome.ok_bind, Outcome.ensure_of hmethod, hparams, Outcome.ensure_of hone,
    List.getElem?_cons_zero, Outcome.unwrap_some, hvalues, Outcome.ensure_of htwo, htoken, hcall,
    Outcome.ensure_of htransfer, hargs, Outcome.ensure_of htwo', List.getElem?_cons_succ, hfind]
  rfl

theorem exists_of_parse (h : (safe.parseWithdrawalWithPubKeyMultiSigTx tx).NoErr) :
    ∃ p : TokenMultiSend, p.Of safe tx := by
  simp only [AuditedSafeConfig.parseWithdrawalWithPubKeyMultiSigTx, Outcome.noErr_bind,
    Outcome.okOr_ne_panic, Outcome.ensure_ne_panic, Outcome.okOr_eq_ok, Outcome.ensure_eq_ok,
    exists_false, false_or, Outcome.unwrap_eq_ok, Outcome.unwrap_eq_panic] at h
  obtain ⟨data,hdata,-,hmethod,-,hone,h⟩ := h
  -- the call has one parameter
  obtain ⟨parameter,hparams⟩ := List.length_eq_one_iff.mp hone
  simp only [hparams, List.getElem?_cons_zero, reduceCtorEq, false_and, exists_false, false_or,
    Option.some.injEq, exists_eq_left'] at h
  obtain ⟨values,hvalues,-,htwo,h⟩ := h
  -- with two inner transactions
  obtain ⟨transfer,aux,rfl⟩ := List.length_eq_two.mp htwo
  simp only [List.getElem?_cons_zero, reduceCtorEq, false_and, exists_false, false_or,
    Option.some.injEq, exists_eq_left'] at h
  obtain ⟨token,htoken,call,hcall,-,htransfer,-,htwo',-⟩ := h
  -- the first of which is a transfer with two arguments
  obtain ⟨recipient,amount,hargs⟩ := List.length_eq_two.mp htwo'
  exact ⟨⟨transfer,aux,token,recipient,amount⟩,data,parameter,call,hdata,hmethod,hparams,hvalues,
    htoken,hcall,htransfer,hargs⟩

/-! ### What the parser does with a token multi-send -/

theorem txOutPubKeyOfAuxData_eq_ok (token : AuditedToken) (data : String) (key : Bytes) :
    AuditedSafeConfig.txOutPubKeyOfAuxData token data = .ok key ↔
      ∃ bytes, hexPayload data = some bytes ∧ token.auxBurnFunctionSig.toList <+: bytes ∧
        36 ≤ bytes.length ∧ key = bytes.drop (bytes.length-32) := by
  have hsig : token.auxBurnFunctionSig.toList.length+32 = 36 := by simp
  simp only [AuditedSafeConfig.txOutPubKeyOfAuxData, Outcome.bind_eq_ok, Outcome.okOr_eq_ok,
    Outcome.ensure_eq_ok, Outcome.pure_eq_ok, List.isPrefixOf_iff_prefix, hsig, hexPayload,
    Option.bind_eq_some_iff]
  constructor
  · rintro ⟨digits,hd,bytes,hb,-,hpre,-,hlen,hkey⟩
    exact ⟨bytes,⟨digits,hd,hb⟩,hpre,hlen,hkey⟩
  · rintro ⟨bytes,⟨digits,hd,hb⟩,hpre,hlen,hkey⟩
    exact ⟨digits,hd,bytes,hb,(),hpre,(),hlen,hkey⟩

theorem txOutPubKeyOfAuxData_ne_panic (token : AuditedToken) (data : String) (m : String) :
    AuditedSafeConfig.txOutPubKeyOfAuxData token data ≠ .panic m := by
  simp [AuditedSafeConfig.txOutPubKeyOfAuxData]

/-- The tokens of a safe lose at most 38 decimals. -/
def AuditedSafeConfig.DecimalsFit (safe : AuditedSafeConfig) : Prop :=
  ∀ token ∈ safe.tokens, token.decimals.toNat-safe.tokenDecimalsMax.toNat ≤ 38

theorem TokenMultiSend.Of.token_eq {p : TokenMultiSend} (hp : p.Of safe tx) :
    safe.getTokenByEthContractAddr p.transfer.toAddr = some p.token := by
  obtain ⟨data,parameter,call,-,-,-,-,htoken,-⟩ := hp
  exact htoken

theorem TokenMultiSend.Of.decimals_le {p : TokenMultiSend} (hp : p.Of safe tx)
    (hsafe : safe.DecimalsFit) : p.token.decimals.toNat-safe.tokenDecimalsMax.toNat ≤ 38 :=
  hsafe p.token (List.mem_of_find?_eq_some hp.token_eq)

theorem withdrawal_eq_ok (p : TokenMultiSend) (w : GnosisSafeWithdrawal) :
    p.withdrawal safe tx = .ok w ↔ ∃ entry rest ethTxValue key value amount,
      tx.transferData = entry :: rest ∧ entry.value = some ethTxValue ∧
      (p.aux.toAddr == p.token.auxBurnContractAddr) = true ∧
      AuditedSafeConfig.txOutPubKeyOfAuxData p.token p.aux.data = .ok key ∧
      parseU128 p.amount.value = some value ∧
      truncateValue value p.token.decimals safe.tokenDecimalsMax = .ok amount ∧
      w = GnosisSafeWithdrawal.new none tx.txHash tx.executionDate ethTxValue tx.ethBlockNumber
        tx.safe p.transfer.toAddr entry.toAddr amount (Hex.encode key) := by
  simp only [TokenMultiSend.withdrawal, Outcome.bind_eq_ok, Outcome.unwrap_eq_ok,
    Outcome.ensure_eq_ok, Outcome.pure_eq_ok]
  constructor
  · rintro ⟨entry,hentry,ethTxValue,hev,-,haux,key,hkey,value,hvalue,amount,hamount,hw⟩
    -- the source reads the entry at index 0
    obtain ⟨rest,hrest⟩ : ∃ rest, tx.transferData = entry :: rest := by
      cases hl : tx.transferData <;> simp_all
    exact ⟨entry,rest,ethTxValue,key,value,amount,hrest,hev,haux,hkey,hvalue,hamount,hw⟩
  · rintro ⟨entry,rest,ethTxValue,key,value,amount,hrest,hev,haux,hkey,hvalue,hamount,hw⟩
    exact ⟨entry,by rw [hrest]; rfl,ethTxValue,hev,(),haux,key,hkey,value,hvalue,amount,hamount,hw⟩

/-- The first transfer of the transaction has a value. -/
def MultiSigTransaction.HasValue (tx : MultiSigTransaction) : Prop :=
  ∃ entry rest value, tx.transferData = entry :: rest ∧ entry.value = some value

theorem recordsKey_iff (p : TokenMultiSend) : p.RecordsKey ↔
    (p.aux.toAddr == p.token.auxBurnContractAddr) = true ∧
      ∃ key, AuditedSafeConfig.txOutPubKeyOfAuxData p.token p.aux.data = .ok key := by
  simp only [TokenMultiSend.RecordsKey, txOutPubKeyOfAuxData_eq_ok]
  refine and_congr_right fun _ => ⟨?_,?_⟩
  · rintro ⟨bytes,hbytes,hpre,hlen⟩
    exact ⟨_,bytes,hbytes,hpre,hlen,rfl⟩
  · rintro ⟨key,bytes,hbytes,hpre,hlen,-⟩
    exact ⟨bytes,hbytes,hpre,hlen⟩

theorem withdrawal_isOk_iff (p : TokenMultiSend) :
    (∃ w, p.withdrawal safe tx = .ok w) ↔ tx.HasValue ∧ p.RecordsKey ∧ p.Truncates safe := by
  simp only [withdrawal_eq_ok, recordsKey_iff]
  constructor
  · rintro ⟨_,entry,rest,ethTxValue,key,value,amount,hrest,hev,haux,hkey,hvalue,hamount,-⟩
    exact ⟨⟨entry,rest,ethTxValue,hrest,hev⟩,⟨haux,key,hkey⟩,value,amount,hvalue,hamount⟩
  · rintro ⟨⟨entry,rest,ethTxValue,hrest,hev⟩,⟨haux,key,hkey⟩,value,amount,hvalue,hamount⟩
    exact ⟨_,entry,rest,ethTxValue,key,value,amount,hrest,hev,haux,hkey,hvalue,hamount,rfl⟩

theorem truncates_iff {p : TokenMultiSend}
    (hd : p.token.decimals.toNat-safe.tokenDecimalsMax.toNat ≤ 38) :
    p.Truncates safe ↔ p.AmountFits safe := by
  constructor
  · rintro ⟨value,amount,hvalue,hamount⟩
    exact ⟨value,hvalue,(truncateValue_eq_ok _ _ _ hd _).mp hamount ▸ amount.toNat_lt⟩
  · rintro ⟨value,hvalue,hfit⟩
    exact ⟨value,.ofNat _,hvalue,
      (truncateValue_eq_ok _ _ _ hd _).mpr (UInt64.toNat_ofNat_of_lt' hfit)⟩

theorem withdrawal_returns_iff {p : TokenMultiSend}
    (hd : p.token.decimals.toNat-safe.tokenDecimalsMax.toNat ≤ 38) :
    (∃ w, p.withdrawal safe tx = .ok w) ↔ tx.HasValue ∧ p.RecordsKey ∧ p.AmountFits safe := by
  rw [withdrawal_isOk_iff, truncates_iff hd]

theorem withdrawal_noErr_iff (p : TokenMultiSend) :
    (p.withdrawal safe tx).NoErr ↔ (tx.HasValue → p.RecordsKey) := by
  unfold TokenMultiSend.withdrawal
  rcases hrest : tx.transferData with _ | ⟨entry,rest⟩
  -- no transfer data: the index panics
  · refine iff_of_true (Outcome.noErr_panic _) ?_
    rintro ⟨entry,rest,value,h,-⟩
    rw [hrest] at h
    cases h
  rcases hev : entry.value with _ | ethTxValue
  -- an entry without a value: the `unwrap` panics
  · refine iff_of_true ?_ ?_
    · simp only [List.getElem?_cons_zero, Outcome.unwrap_some, Outcome.ok_bind, hev]
      exact Outcome.noErr_panic _
    · rintro ⟨entry',rest',value,h,hvalue⟩
      obtain ⟨rfl,rfl⟩ := List.cons.inj (hrest.symm.trans h)
      rw [hev] at hvalue
      cases hvalue
  have hv : tx.HasValue := ⟨entry,rest,ethTxValue,hrest,hev⟩
  simp only [List.getElem?_cons_zero, Outcome.unwrap_some, Outcome.ok_bind, hev, hv, true_implies,
    recordsKey_iff]
  constructor
  · intro h
    rcases (Outcome.noErr_bind _ _).mp h with ⟨m,hm⟩ | ⟨_,haux,h⟩
    · exact absurd hm (Outcome.ensure_ne_panic _ _ _)
    · rcases (Outcome.noErr_bind _ _).mp h with ⟨m,hm⟩ | ⟨key,hkey,-⟩
      · exact absurd hm (txOutPubKeyOfAuxData_ne_panic _ _ _)
      · exact ⟨(Outcome.ensure_eq_ok _ _ _).mp haux,key,hkey⟩
  · rintro ⟨haux,key,hkey⟩
    simp only [Outcome.ensure_of haux, Outcome.ok_bind, hkey]
    exact (Outcome.noErr_unwrap _ _).bind fun value =>
      (truncateValue_noErr _ _ _).bind fun amount => Outcome.noErr_ok _

/-! ### The grammar of withdrawals -/

/-- A withdrawal is a token multi-send whose amount fits, that records a key, and that comes
with exactly one transfer, which has a value. -/
def WithdrawalGrammar (safe : AuditedSafeConfig) (tx : MultiSigTransaction) : Prop :=
  ∃ p : TokenMultiSend, p.Of safe tx ∧ p.AmountFits safe ∧
    (∃ entry value, tx.transferData = [entry] ∧ entry.value = some value) ∧ p.RecordsKey

theorem single_iff (tx : MultiSigTransaction) :
    (∃ entry value, tx.transferData = [entry] ∧ entry.value = some value) ↔
      tx.HasValue ∧ tx.transferData.length = 1 := by
  constructor
  · rintro ⟨entry,value,hentry,hvalue⟩
    exact ⟨⟨entry,[],value,hentry,hvalue⟩,by rw [hentry]; rfl⟩
  · rintro ⟨⟨entry,rest,value,hrest,hvalue⟩,hlen⟩
    obtain ⟨entry',hentry'⟩ := List.length_eq_one_iff.mp hlen
    obtain ⟨rfl,-⟩ := List.cons.inj (hrest.symm.trans hentry')
    exact ⟨entry,value,hentry',hvalue⟩

theorem TokenMultiSend.Of.grammar_iff {p : TokenMultiSend} (hp : p.Of safe tx) :
    WithdrawalGrammar safe tx ↔
      p.AmountFits safe ∧ (tx.HasValue ∧ tx.transferData.length = 1) ∧ p.RecordsKey := by
  rw [← single_iff]
  constructor
  · rintro ⟨q,hq,h⟩
    rw [hp.unique hq]
    exact h
  · exact fun h => ⟨p,hp,h⟩

/-- The parser returns `Ok` on the grammar and `Err` outside of it exactly on the transactions
that, if they are token multi-sends, come with a first transfer with a value, and if they also
record a key, with an amount that fits and with no other transfer. -/
theorem parse_meets_grammar_iff (safe : AuditedSafeConfig) (tx : MultiSigTransaction)
    (hsafe : safe.DecimalsFit) :
    ((WithdrawalGrammar safe tx → ∃ w, safe.parseWithdrawalWithPubKeyMultiSigTx tx = .ok w) ∧
      (¬WithdrawalGrammar safe tx →
        ∃ e, safe.parseWithdrawalWithPubKeyMultiSigTx tx = .err e)) ↔
    ∀ p : TokenMultiSend, p.Of safe tx → tx.HasValue ∧
      (p.RecordsKey → p.AmountFits safe ∧ tx.transferData.length = 1) := by
  by_cases hof : ∃ p : TokenMultiSend, p.Of safe tx
  · obtain ⟨p,hp⟩ := hof
    have hall : (∀ q : TokenMultiSend, q.Of safe tx → tx.HasValue ∧
        (q.RecordsKey → q.AmountFits safe ∧ tx.transferData.length = 1)) ↔
        tx.HasValue ∧ (p.RecordsKey → p.AmountFits safe ∧ tx.transferData.length = 1) :=
      ⟨fun h => h p hp,fun h q hq => hp.unique hq ▸ h⟩
    rw [parse_eq_of hp, hp.grammar_iff, withdrawal_returns_iff (hp.decimals_le hsafe),
      Outcome.exists_err_iff, withdrawal_noErr_iff, hall]
    tauto
  -- without the parts of a withdrawal the parser fails, and the grammar excludes the transaction
  · have herr : ∃ e, safe.parseWithdrawalWithPubKeyMultiSigTx tx = .err e :=
      (Outcome.exists_err_iff _).mpr fun hn => hof (exists_of_parse hn)
    refine iff_of_true ⟨?_,fun _ => herr⟩ fun p hp => absurd ⟨p,hp⟩ hof
    rintro ⟨p,hp,-⟩
    exact absurd ⟨p,hp⟩ hof

/-- A transfer of the token from the first safe to the user. -/
def transferOf (value : EthTxValue) : EthereumTransfer :=
  ⟨Reference.safeAddrA,Reference.userAddr,some Reference.tokenAddr,Reference.hashOf 0x11,some value⟩

/-- A withdrawal of five millionths of the token from the first safe that comes with the given
transfers. -/
def withdrawalOfFive (transfers : List EthereumTransfer) : MultiSigTransaction where
  safe := Reference.safeAddrA
  ethBlockNumber := 100
  txHash := Reference.hashOf 0x11
  dataDecoded := some ⟨"multiSend",[⟨"0x",some [
    ⟨Reference.tokenAddr,"0x",some ⟨"transfer",
      [⟨Reference.userAddr.text,none⟩,⟨"5000000000000",none⟩]⟩⟩,
    ⟨Reference.auxAddr,"0x" ++ Hex.encode
      (Reference.token.auxBurnFunctionSig.toList ++ List.replicate 32 3),none⟩]⟩]⟩
  transferData := transfers
  executionDate := 0

def partsOfFive : TokenMultiSend where
  transfer := ⟨Reference.tokenAddr,"0x",some ⟨"transfer",
    [⟨Reference.userAddr.text,none⟩,⟨"5000000000000",none⟩]⟩⟩
  aux := ⟨Reference.auxAddr,"0x" ++ Hex.encode
    (Reference.token.auxBurnFunctionSig.toList ++ List.replicate 32 3),none⟩
  token := Reference.token
  recipient := ⟨Reference.userAddr.text,none⟩
  amount := ⟨"5000000000000",none⟩

theorem partsOfFive_of (transfers : List EthereumTransfer) :
    partsOfFive.Of Reference.safeA (withdrawalOfFive transfers) := by
  refine ⟨_,_,_,rfl,rfl,rfl,rfl,?_,rfl,rfl,rfl⟩
  have hfound : Reference.token.ethTokenContractAddrs.contains Reference.tokenAddr = true := by
    decide +kernel
  exact List.find?_cons_of_pos hfound

theorem partsOfFive_amountFits : partsOfFive.AmountFits Reference.safeA :=
  ⟨5000000000000,by decide +kernel,by decide⟩

theorem partsOfFive_recordsKey : partsOfFive.RecordsKey :=
  ⟨by decide +kernel,Reference.token.auxBurnFunctionSig.toList ++ List.replicate 32 3,
    by decide +kernel,List.prefix_append _ _,by decide⟩

theorem safeA_decimalsFit : Reference.safeA.DecimalsFit := by
  intro token htoken
  obtain rfl := List.mem_singleton.mp htoken
  decide

theorem withdrawalOfFive_returns (entry : EthereumTransfer) (rest : List EthereumTransfer)
    (value : EthTxValue) (hvalue : entry.value = some value) :
    ∃ w, Reference.safeA.parseWithdrawalWithPubKeyMultiSigTx
      (withdrawalOfFive (entry :: rest)) = .ok w := by
  have hof := partsOfFive_of (entry :: rest)
  rw [parse_eq_of hof]
  exact (withdrawal_returns_iff (hof.decimals_le safeA_decimalsFit)).mpr
    ⟨⟨entry,rest,value,rfl,hvalue⟩,partsOfFive_recordsKey,partsOfFive_amountFits⟩

/-- With one transfer the parser meets the grammar. -/
theorem withdrawalOfFive_meets_grammar :
    (WithdrawalGrammar Reference.safeA (withdrawalOfFive [transferOf 5000000000000]) →
      ∃ w, Reference.safeA.parseWithdrawalWithPubKeyMultiSigTx
        (withdrawalOfFive [transferOf 5000000000000]) = .ok w) ∧
    (¬WithdrawalGrammar Reference.safeA (withdrawalOfFive [transferOf 5000000000000]) →
      ∃ e, Reference.safeA.parseWithdrawalWithPubKeyMultiSigTx
        (withdrawalOfFive [transferOf 5000000000000]) = .err e) := by
  refine (parse_meets_grammar_iff _ _ safeA_decimalsFit).mpr fun p hp => ?_
  obtain rfl := hp.unique (partsOfFive_of _)
  exact ⟨⟨_,_,_,rfl,rfl⟩,fun _ => ⟨partsOfFive_amountFits,rfl⟩⟩

/-- Two transfers are outside of the grammar, and the parser accepts them. -/
theorem twoTransfers_accepted :
    ¬WithdrawalGrammar Reference.safeA
      (withdrawalOfFive [transferOf 9000000000000,transferOf 5000000000000]) ∧
    ∃ w, Reference.safeA.parseWithdrawalWithPubKeyMultiSigTx
      (withdrawalOfFive [transferOf 9000000000000,transferOf 5000000000000]) = .ok w := by
  constructor
  · rintro ⟨p,-,-,⟨entry,value,hentry,-⟩,-⟩
    have hlen : 2 = 1 := congrArg List.length hentry
    omega
  · exact withdrawalOfFive_returns _ _ _ rfl

/-! ### Consistent withdrawals -/

/-- What a recorded withdrawal says about the amount, the recipient and the token agrees. -/
structure GnosisSafeWithdrawal.Consistent (w : GnosisSafeWithdrawal) (safe : AuditedSafeConfig)
    (tx : MultiSigTransaction) : Prop where
  amount : ∃ token, safe.getTokenByEthContractAddr w.tokenAddr = some token ∧
    truncateValue w.ethTxValue token.decimals safe.tokenDecimalsMax = .ok w.getAmount
  recipient : ∃ p : TokenMultiSend, p.Of safe tx ∧ ∃ recipient,
    EthAddr.fromStr p.recipient.value = .ok recipient ∧ (w.toAddr == recipient) = true
  token : ∃ entry rest tokenAddr, tx.transferData = entry :: rest ∧
    entry.tokenAddr = some tokenAddr ∧ (tokenAddr == w.tokenAddr) = true

/-- A transfer is of the token, to the recipient and of the truncated amount of the call. -/
def EthereumTransfer.Mirrors (entry : EthereumTransfer) (p : TokenMultiSend)
    (safe : AuditedSafeConfig) : Prop :=
  (∃ tokenAddr, entry.tokenAddr = some tokenAddr ∧ (tokenAddr == p.transfer.toAddr) = true) ∧
  (∃ recipient, EthAddr.fromStr p.recipient.value = .ok recipient ∧
    (entry.toAddr == recipient) = true) ∧
  ∃ sent called, entry.value = some sent ∧ parseU128 p.amount.value = some called ∧
    sent.toNat/10^(p.token.decimals.toNat-safe.tokenDecimalsMax.toNat) =
      called.toNat/10^(p.token.decimals.toNat-safe.tokenDecimalsMax.toNat)

/-- A withdrawal that the parser returned is consistent exactly when the first transfer of the
transaction mirrors the call that the amount is taken from. -/
theorem parse_consistent_iff (safe : AuditedSafeConfig) (tx : MultiSigTransaction)
    (w : GnosisSafeWithdrawal) (hsafe : safe.DecimalsFit)
    (hw : safe.parseWithdrawalWithPubKeyMultiSigTx tx = .ok w) :
    w.Consistent safe tx ↔ ∃ (p : TokenMultiSend) (entry : EthereumTransfer)
      (rest : List EthereumTransfer), p.Of safe tx ∧ tx.transferData = entry :: rest ∧
        entry.Mirrors p safe := by
  have hn : (safe.parseWithdrawalWithPubKeyMultiSigTx tx).NoErr := by
    rw [hw]
    exact Outcome.noErr_ok w
  obtain ⟨p,hp⟩ := exists_of_parse hn
  rw [parse_eq_of hp] at hw
  obtain ⟨entry,rest,sent,key,called,amount,hrest,hsent,-,-,hcalled,hamount,rfl⟩ :=
    (withdrawal_eq_ok p w).mp hw
  have hd := hp.decimals_le hsafe
  -- the column stores the amount as a signed word, and reads the same one back
  have hget : amount.toInt64.toUInt64 = amount := UInt64.toUInt64_toInt64 amount
  have hquot := (truncateValue_eq_ok _ _ _ hd _).mp hamount
  constructor
  · rintro ⟨⟨token,htoken,htrunc⟩,⟨q,hq,recipient,hr,hto⟩,⟨entry',rest',tokenAddr,hrest',hta,hbeq⟩⟩
    obtain ⟨rfl,rfl⟩ := List.cons.inj (hrest.symm.trans hrest')
    obtain rfl : p.token = token := Option.some.inj (hp.token_eq.symm.trans htoken)
    have hsame := (truncateValue_eq_ok _ _ _ hd _).mp htrunc
    rw [GnosisSafeWithdrawal.getAmount] at hsame
    refine ⟨p,entry,rest,hp,hrest,⟨tokenAddr,hta,hbeq⟩,⟨recipient,hp.unique hq ▸ hr,hto⟩,
      sent,called,hsent,hcalled,?_⟩
    -- both values truncate to the stored amount
    exact hsame.symm.trans ((congrArg UInt64.toNat hget).trans hquot)
  · rintro ⟨q,entry',rest',hq,hrest',⟨tokenAddr,hta,hbeq⟩,⟨recipient,hr,hto⟩,
      sent',called',hsent',hcalled',hsame⟩
    obtain rfl := hp.unique hq
    obtain ⟨rfl,rfl⟩ := List.cons.inj (hrest.symm.trans hrest')
    obtain rfl : sent = sent' := Option.some.inj (hsent.symm.trans hsent')
    obtain rfl : called = called' := Option.some.inj (hcalled.symm.trans hcalled')
    refine ⟨⟨p.token,hp.token_eq,?_⟩,⟨p,hp,recipient,hr,hto⟩,⟨entry,rest,tokenAddr,hrest,hta,hbeq⟩⟩
    exact (truncateValue_eq_ok _ _ _ hd _).mpr
      ((congrArg UInt64.toNat hget).trans (hquot.trans hsame.symm))

/-- With the transfer that the call makes the withdrawal is consistent. -/
theorem withdrawalOfFive_consistent : ∃ w,
    Reference.safeA.parseWithdrawalWithPubKeyMultiSigTx
      (withdrawalOfFive [transferOf 5000000000000]) = .ok w ∧
    w.Consistent Reference.safeA (withdrawalOfFive [transferOf 5000000000000]) := by
  have hof := partsOfFive_of [transferOf 5000000000000]
  obtain ⟨w,hw⟩ := withdrawalOfFive_returns (transferOf 5000000000000) [] _ rfl
  exact ⟨w,hw,(parse_consistent_iff _ _ w safeA_decimalsFit hw).mpr
    ⟨partsOfFive,_,_,hof,rfl,⟨Reference.tokenAddr,rfl,EthAddr.beq_refl _⟩,
      ⟨Reference.userAddr,EthAddr.fromStr_text _,EthAddr.beq_refl _⟩,
      5000000000000,5000000000000,rfl,by decide +kernel,rfl⟩⟩

/-- Of two transfers the first one gives the raw value, and the call gives the amount. -/
theorem twoTransfers_not_consistent : ∃ w,
    Reference.safeA.parseWithdrawalWithPubKeyMultiSigTx
      (withdrawalOfFive [transferOf 9000000000000,transferOf 5000000000000]) = .ok w ∧
    ¬w.Consistent Reference.safeA
      (withdrawalOfFive [transferOf 9000000000000,transferOf 5000000000000]) := by
  have hof := partsOfFive_of [transferOf 9000000000000,transferOf 5000000000000]
  have hd := hof.decimals_le safeA_decimalsFit
  obtain ⟨w,hw⟩ := withdrawalOfFive_returns (transferOf 9000000000000) [transferOf 5000000000000] _ rfl
  refine ⟨w,hw,?_⟩
  rintro ⟨⟨token,htoken,htrunc⟩,-,-⟩
  rw [parse_eq_of hof] at hw
  obtain ⟨entry,rest,sent,key,called,amount,hrest,hsent,-,-,hcalled,hamount,rfl⟩ :=
    (withdrawal_eq_ok _ _).mp hw
  obtain ⟨rfl,-⟩ := List.cons.inj hrest
  obtain rfl : Reference.token = token := Option.some.inj (hof.token_eq.symm.trans htoken)
  have hcall : parseU128 partsOfFive.amount.value = some 5000000000000 := by decide +kernel
  obtain rfl : called = 5000000000000 := Option.some.inj (hcalled.symm.trans hcall)
  obtain rfl : 9000000000000 = sent := Option.some.inj hsent
  have hget : amount.toInt64.toUInt64 = amount := UInt64.toUInt64_toInt64 amount
  -- the call sends 5 units, while the first entry of the transfer data moved 9
  have hfive : truncateValue 5000000000000 18 6 = .ok 5 :=
    (truncateValue_eq_ok _ _ _ (by decide) 5).mpr (by decide)
  have hnine : truncateValue 9000000000000 18 6 = .ok 9 :=
    (truncateValue_eq_ok _ _ _ (by decide) 9).mpr (by decide)
  have h5 : amount = 5 := Outcome.ok.inj (hamount.symm.trans hfive)
  have h9 : amount.toInt64.toUInt64 = 9 := Outcome.ok.inj (htrunc.symm.trans hnine)
  exact absurd (h5.symm.trans (hget.symm.trans h9)) (by decide)

end ReserveAuditor
