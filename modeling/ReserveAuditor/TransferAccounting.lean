import ReserveAuditor.Counting
import ReserveAuditor.Polling

/-! The transfers of an Ethereum transaction into the safe: which of them are recorded and
counted, when the loop over them stops at the first one of an unknown token. -/
namespace ReserveAuditor
open Txn Relational
open Counters (Counts counts_of_eq)

/-! ### Transfers -/

namespace AuditedSafeConfig

def into (safe : AuditedSafeConfig) (t : EthereumTransfer) : Bool := t.toAddr == safe.safeAddr

/-- The audited token that a transfer moves. -/
def tokenOf (safe : AuditedSafeConfig) (t : EthereumTransfer) : Option AuditedToken :=
  t.tokenAddr.bind safe.getTokenByEthContractAddr

/-- The transfer is into the safe, and its token is missing or not audited. -/
def invalid (safe : AuditedSafeConfig) (t : EthereumTransfer) : Bool :=
  safe.into t && (safe.tokenOf t).isNone

/-- The transfers before the first invalid one. -/
def examined (safe : AuditedSafeConfig) (ts : List EthereumTransfer) : List EthereumTransfer :=
  ts.takeWhile fun t => !safe.invalid t

/-- The transfers after the first invalid one. -/
def skipped (safe : AuditedSafeConfig) (ts : List EthereumTransfer) : List EthereumTransfer :=
  (ts.dropWhile fun t => !safe.invalid t).tail

end AuditedSafeConfig

/-- The row has the hash, the token, the sender, the value and the truncated amount of the
transfer. -/
structure GnosisSafeDeposit.Records (d : GnosisSafeDeposit) (safe : AuditedSafeConfig)
    (t : EthereumTransfer) : Prop where
  hash : d.ethTxHash = t.txHash
  token : ∃ tokenAddr, t.tokenAddr = some tokenAddr ∧ (d.tokenAddr == tokenAddr) = true
  sender : (d.fromAddr == t.fromAddr) = true
  value : t.value = some d.ethTxValue
  amount : ∃ token, safe.tokenOf t = some token ∧
    truncateValue d.ethTxValue token.decimals safe.tokenDecimalsMax = .ok d.getAmount

/-- The transfers have the same hash, token, sender and value. -/
structure EthereumTransfer.Same (t t' : EthereumTransfer) : Prop where
  hash : t.txHash = t'.txHash
  token : ∃ a b, t.tokenAddr = some a ∧ t'.tokenAddr = some b ∧ (a == b) = true
  sender : (t.fromAddr == t'.fromAddr) = true
  value : t.value = t'.value

def invalidTransfers (s : Db) : ℕ := Counters.get s .numInvalidEthereumTransactions

def Recorded (safe : AuditedSafeConfig) (s : Db) (t : EthereumTransfer) : Prop :=
  ∃ d ∈ s.gnosisSafeDeposits.rows, d.Records safe t

/-- Each transfer of an audited token into the safe has its row, and the others into the safe
were counted. -/
structure TransfersAccounted (safe : AuditedSafeConfig) (tx : EthereumTransaction) (s s' : Db) :
    Prop where
  recorded : ∀ t ∈ tx.transfers, safe.into t = true → (safe.tokenOf t).isSome = true →
    Recorded safe s' t
  counted : invalidTransfers s' = invalidTransfers s+(tx.transfers.filter safe.invalid).length

/-- After the first invalid transfer there are only transfers of audited tokens into the safe that
a row of the database or an earlier transfer accounts for. -/
def NothingSkipped (safe : AuditedSafeConfig) (tx : EthereumTransaction) (s : Db) : Prop :=
  ∀ t ∈ safe.skipped tx.transfers, safe.into t = true → (safe.tokenOf t).isSome = true ∧
    (Recorded safe s t ∨ ∃ t' ∈ safe.examined tx.transfers, safe.into t' = true ∧ t'.Same t)

variable {safe : AuditedSafeConfig} {serde : Serde} {s s' : Db} {tx : EthereumTransaction}

theorem beq_trans_left {a b c : EthAddr} (hb : (a == b) = true) (hc : (a == c) = true) :
    (b == c) = true := by
  rwa [← EthAddr.beq_congr_left hb c]

theorem GnosisSafeDeposit.Records.same {d : GnosisSafeDeposit} {t t' : EthereumTransfer}
    (h : d.Records safe t) (h' : d.Records safe t') : t.Same t' := by
  obtain ⟨a,ha,hda⟩ := h.token
  obtain ⟨b,hb,hdb⟩ := h'.token
  exact ⟨h.hash.symm.trans h'.hash,⟨a,b,ha,hb,beq_trans_left hda hdb⟩,
    beq_trans_left h.sender h'.sender,h.value.trans h'.value.symm⟩

theorem GnosisSafeDeposit.Records.of_same {d : GnosisSafeDeposit} {t t' : EthereumTransfer}
    (h : d.Records safe t) (hs : t.Same t') : d.Records safe t' := by
  obtain ⟨a,b,ha,hb,hab⟩ := hs.token
  obtain ⟨a',ha',hda⟩ := h.token
  obtain rfl : a = a' := Option.some.inj (ha.symm.trans ha')
  have htoken : safe.tokenOf t' = safe.tokenOf t := by
    simp only [AuditedSafeConfig.tokenOf, ha, hb, Option.bind_some, get_token_congr safe hab]
  refine ⟨h.hash.trans hs.hash,⟨b,hb,?_⟩,?_,hs.value.symm.trans h.value,htoken ▸ h.amount⟩
  · rwa [← EthAddr.beq_congr_right hab d.tokenAddr]
  · rw [← EthAddr.beq_congr_right hs.sender d.fromAddr]
    exact h.sender

theorem GnosisSafeDeposit.Records.not_invalid {d : GnosisSafeDeposit} {t : EthereumTransfer}
    (h : d.Records safe t) : safe.invalid t = false := by
  obtain ⟨token,htoken,-⟩ := h.amount
  simp [AuditedSafeConfig.invalid, htoken]

/-! ### One transfer -/

theorem depositOfTransfer_records {t : EthereumTransfer} {d₀ : GnosisSafeDeposit}
    (h : safe.depositOfTransfer tx t = .ok d₀) (n : ℕ) :
    (Record.withId d₀ n).Records safe t := by
  simp only [AuditedSafeConfig.depositOfTransfer, Outcome.bind_eq_ok, Outcome.okOr_eq_ok,
    Outcome.unwrap_eq_ok, Outcome.pure_eq_ok] at h
  obtain ⟨tokenAddr,haddr,token,htoken,value,hvalue,amount,hamount,rfl⟩ := h
  have hof : safe.tokenOf t = some token := by
    rw [AuditedSafeConfig.tokenOf, haddr]
    exact htoken
  refine ⟨rfl,⟨tokenAddr,haddr,EthAddr.beq_refl _⟩,EthAddr.beq_refl _,hvalue,token,hof,?_⟩
  exact hamount

theorem depositOfTransfer_unknown_iff (tx : EthereumTransaction) (t : EthereumTransfer) :
    (∃ m, safe.depositOfTransfer tx t = .err (.unknownToken m)) ↔
      safe.tokenOf t = none ∧ t.tokenAddr.isSome = true := by
  constructor
  · rintro ⟨m,h⟩
    simp only [AuditedSafeConfig.depositOfTransfer, Outcome.bind_eq_err, Outcome.okOr_eq_err,
      Outcome.okOr_eq_ok, Outcome.unwrap_ne_err, Outcome.pure_ne_err, reduceCtorEq, and_false,
      exists_false, or_false, false_or] at h
    obtain ⟨tokenAddr,haddr,⟨hnone,-⟩ | ⟨token,-,value,-,hvalue⟩⟩ := h
    · rw [AuditedSafeConfig.tokenOf, haddr]
      exact ⟨hnone,rfl⟩
    -- the division fails by a panic only
    · exact absurd hvalue (truncateValue_noErr _ _ _ _)
  · rintro ⟨hnone,hsome⟩
    obtain ⟨tokenAddr,haddr⟩ := Option.isSome_iff_exists.mp hsome
    rw [AuditedSafeConfig.tokenOf, haddr] at hnone
    have hfind : safe.tokens.find? (fun token => token.ethTokenContractAddrs.contains tokenAddr) =
        none := hnone
    exact ⟨"Unknown token transfer",by simp [AuditedSafeConfig.depositOfTransfer, haddr, hfind]⟩

/-- A transfer that is processed counts nothing as invalid. -/
theorem counts_returns_processTransfer {t : EthereumTransfer} {u : Unit}
    (h : (safe.processTransfer tx t).Returns s u s') : Counts Counter.ofMints s s' := by
  rcases AuditedSafeConfig.returns_processTransfer_iff.mp h with ⟨-,rfl⟩ | ⟨-,d₀,-,hstore⟩
  -- a transfer that does not go to the safe is passed over
  · exact counts_of_eq rfl
  · exact (counts_storeDeposit safe d₀).returns hstore

theorem returns_processTransfer_records {t : EthereumTransfer} {u : Unit}
    (h : (safe.processTransfer tx t).Returns s u s') :
    invalidTransfers s' = invalidTransfers s ∧
    ((safe.into t = false ∧ s' = s) ∨ (safe.into t = true ∧ ∃ d, d.Records safe t ∧
      s'.gnosisSafeDeposits.rows = s.gnosisSafeDeposits.rows ++ [d])) := by
  refine ⟨(counts_returns_processTransfer h).get rfl,?_⟩
  rcases returns_processTransfer h with hout | ⟨ha,d₀,n,hd₀,-,hadd⟩
  · exact Or.inl hout
  · exact Or.inr ⟨ha,_,depositOfTransfer_records hd₀ n,hadd.rows⟩

/-- At a transfer of an unknown token the loop stops, and one invalid transfer is counted. -/
theorem fails_processTransfer_unknown {t : EthereumTransfer} {m : String}
    (h : (safe.processTransfer tx t).Fails s (.gnosis (.unknownToken m)) s') :
    safe.invalid t = true ∧ t.tokenAddr.isSome = true ∧ ∃ row, s.counters = some row ∧
      s' = { s with counters := some (row.bump .numInvalidEthereumTransactions) } := by
  obtain ⟨ha,⟨err,herr,h⟩ | ⟨d₀,-,h⟩⟩ := AuditedSafeConfig.fails_processTransfer_iff.mp h
  · simp only [Program.fails_bind, Counters.fails_inc, Program.fails_fail, reduceCtorEq, false_and,
      and_false, false_or] at h
    obtain ⟨_,_,hinc,he,rfl⟩ := h
    -- the increment went through, so the error is the one of the transfer
    obtain rfl := Error.gnosis.inj he
    obtain ⟨row,hrow,rfl⟩ := (Counters.returns_inc _ _ _ _).mp hinc
    obtain ⟨hnone,haddr⟩ := (depositOfTransfer_unknown_iff tx t).mp ⟨m,herr⟩
    refine ⟨?_,haddr,row,hrow,rfl⟩
    simp [AuditedSafeConfig.invalid, AuditedSafeConfig.into, ha, hnone]
  -- storing a deposit does not fail with an unknown token
  · exact absurd rfl ((fails_storeDeposit h).2 _)

/-! ### All transfers -/

/-- The transfers were examined up to the first invalid one. -/
structure Examined (safe : AuditedSafeConfig) (ts : List EthereumTransfer) (s s' : Db) : Prop where
  recorded : ∀ t ∈ safe.examined ts, safe.into t = true → Recorded safe s' t
  kept : ∀ d ∈ s.gnosisSafeDeposits.rows, d ∈ s'.gnosisSafeDeposits.rows
  new : ∀ d ∈ s'.gnosisSafeDeposits.rows, d ∈ s.gnosisSafeDeposits.rows ∨
    ∃ t ∈ safe.examined ts, safe.into t = true ∧ d.Records safe t
  counted : invalidTransfers s' =
    invalidTransfers s+((ts.dropWhile fun t => !safe.invalid t).take 1).length

theorem examined_nil (safe : AuditedSafeConfig) (s : Db) : Examined safe [] s s where
  recorded t ht := by simp [AuditedSafeConfig.examined] at ht
  kept d hd := hd
  new d hd := Or.inl hd
  counted := rfl

theorem Examined.cons {t : EthereumTransfer} {ts : List EthereumTransfer} {s₁ : Db} {u : Unit}
    (hone : (safe.processTransfer tx t).Returns s u s₁) (h : Examined safe ts s₁ s') :
    Examined safe (t :: ts) s s' := by
  obtain ⟨hcount,hcases⟩ := returns_processTransfer_records hone
  -- a transfer that was processed is not the one the loop stops at
  have hvalid : safe.invalid t = false := by
    rcases hcases with ⟨hout,-⟩ | ⟨-,d,hd,-⟩
    · simp [AuditedSafeConfig.invalid, hout]
    · exact hd.not_invalid
  have hex : safe.examined (t :: ts) = t :: safe.examined ts := by
    simp [AuditedSafeConfig.examined, hvalid]
  have hdrop : ((t :: ts).dropWhile fun t => !safe.invalid t) =
      ts.dropWhile fun t => !safe.invalid t := by
    simp [hvalid]
  have hkept : ∀ d ∈ s.gnosisSafeDeposits.rows, d ∈ s₁.gnosisSafeDeposits.rows := by
    rcases hcases with ⟨-,rfl⟩ | ⟨-,d,-,hrows⟩
    · exact fun d hd => hd
    · rw [hrows]
      exact fun d hd => List.mem_append_left _ hd
  -- the parts of `Examined` in turn: recorded, kept, new and counted
  refine ⟨fun x hx hinto => ?_,fun d hd => h.kept d (hkept d hd),fun d hd => ?_,?_⟩
  · rw [hex] at hx
    rcases List.mem_cons.mp hx with rfl | hx
    · rcases hcases with ⟨hout,-⟩ | ⟨-,d,hd,hrows⟩
      · simp [hout] at hinto
      · exact ⟨d,h.kept d (Table.mem_append hrows),hd⟩
    · exact h.recorded x hx hinto
  · rw [hex]
    rcases h.new d hd with hd | ⟨x,hx,hinto,hrec⟩
    · rcases hcases with ⟨-,rfl⟩ | ⟨hinto,d',hrec,hrows⟩
      · exact Or.inl hd
      · rw [hrows] at hd
        rcases List.mem_append.mp hd with hd | hd
        · exact Or.inl hd
        · obtain rfl := List.mem_singleton.mp hd
          exact Or.inr ⟨t,List.mem_cons_self,hinto,hrec⟩
    · exact Or.inr ⟨x,List.mem_cons_of_mem t hx,hinto,hrec⟩
  · rw [hdrop, h.counted, hcount]

/-- A transaction whose processing commits was examined up to its first invalid transfer. -/
theorem examined_transfers (ts : List EthereumTransfer)
    (h : (∃ u, (Program.forEach ts (safe.processTransfer tx)).Returns s u s') ∨
      ∃ m, (Program.forEach ts (safe.processTransfer tx)).Fails s (.gnosis (.unknownToken m)) s') :
    Examined safe ts s s' := by
  induction ts generalizing s with
  | nil =>
    rcases h with ⟨u,h⟩ | ⟨m,h⟩
    · rw [(Program.returns_forEach_nil _ s s' u).mp h]
      exact examined_nil safe s
    · simp at h
  | cons t ts ih =>
    rcases h with ⟨u,h⟩ | ⟨m,h⟩
    · obtain ⟨s₁,hone,hrest⟩ := (Program.returns_forEach_cons _ _ _ s s' u).mp h
      exact (ih (Or.inl ⟨u,hrest⟩)).cons hone
    · rcases (Program.fails_forEach_cons _ _ _ s s' _).mp h with hone | ⟨s₁,hone,hrest⟩
      · obtain ⟨hinvalid,-,row,hrow,rfl⟩ := fails_processTransfer_unknown hone
        -- the loop stopped at `t`, so no transfer is examined from here on
        have hex : safe.examined (t :: ts) = [] := by
          simp [AuditedSafeConfig.examined, hinvalid]
        refine ⟨by simp [hex],fun d hd => hd,fun d hd => Or.inl hd,?_⟩
        simp [hinvalid, invalidTransfers, Counters.get, hrow]
      · exact (ih (Or.inr ⟨m,hrest⟩)).cons hone

theorem length_filter_eq {α : Type} (p : α → Bool) (l : List α) : (l.filter p).length =
    ((l.dropWhile fun a => !p a).take 1).length+((l.dropWhile fun a => !p a).tail.filter p).length := by
  induction l with
  | nil => rfl
  | cons a l ih => cases hp : p a <;> simp [hp, ih, Nat.add_comm]

theorem mem_of_mem_examined {t : EthereumTransfer} {ts : List EthereumTransfer}
    (h : t ∈ safe.examined ts) : t ∈ ts := (List.takeWhile_sublist _).subset h

theorem mem_of_mem_skipped {t : EthereumTransfer} {ts : List EthereumTransfer}
    (h : t ∈ safe.skipped ts) : t ∈ ts :=
  (List.dropWhile_sublist _).subset (List.mem_of_mem_tail h)

/-- A transfer is examined, or skipped, or the invalid one that the loop stopped at. -/
theorem mem_cases (safe : AuditedSafeConfig) {t : EthereumTransfer} {ts : List EthereumTransfer}
    (h : t ∈ ts) :
    t ∈ safe.examined ts ∨ safe.invalid t = true ∨ t ∈ safe.skipped ts := by
  rw [← List.takeWhile_append_dropWhile (p := fun t => !safe.invalid t) (l := ts)] at h
  rcases List.mem_append.mp h with h | h
  · exact Or.inl h
  · unfold AuditedSafeConfig.skipped
    cases hd : ts.dropWhile fun t => !safe.invalid t with
    | nil => simp [hd] at h
    | cons x xs =>
      rw [hd] at h
      rcases List.mem_cons.mp h with rfl | h
      -- the first one that is left is invalid, and the others are skipped
      · have hx := List.head_dropWhile_not (fun t => !safe.invalid t) (l := ts) (by simp [hd])
        simp only [hd, List.head_cons, Bool.not_eq_false'] at hx
        exact Or.inr (Or.inl hx)
      · exact Or.inr (Or.inr h)

theorem Examined.counted_iff (h : Examined safe tx.transfers s s') :
    invalidTransfers s' = invalidTransfers s+(tx.transfers.filter safe.invalid).length ↔
      ∀ t ∈ safe.skipped tx.transfers, safe.invalid t = false := by
  have hlen := length_filter_eq safe.invalid tx.transfers
  have hcount := h.counted
  have hnil : ((safe.skipped tx.transfers).filter safe.invalid).length = 0 ↔
      ∀ t ∈ safe.skipped tx.transfers, safe.invalid t = false := by
    simp only [List.length_eq_zero_iff, List.filter_eq_nil_iff, Bool.not_eq_true]
  rw [← hnil]
  unfold AuditedSafeConfig.skipped
  omega

theorem Examined.accounted_iff (h : Examined safe tx.transfers s s') :
    TransfersAccounted safe tx s s' ↔ NothingSkipped safe tx s := by
  constructor
  · rintro ⟨hrecorded,hcounted⟩ t ht hinto
    -- a skipped transfer is not counted, so it has to be recorded
    have hvalid := h.counted_iff.mp hcounted t ht
    have haudited : (safe.tokenOf t).isSome = true := by
      simpa [AuditedSafeConfig.invalid, hinto] using hvalid
    obtain ⟨d,hd,hrec⟩ := hrecorded t (mem_of_mem_skipped ht) hinto haudited
    refine ⟨haudited,?_⟩
    rcases h.new d hd with hold | ⟨t',ht',hinto',hrec'⟩
    · exact Or.inl ⟨d,hold,hrec⟩
    · exact Or.inr ⟨t',ht',hinto',hrec'.same hrec⟩
  · intro hskip
    refine ⟨fun t ht hinto haudited => ?_,h.counted_iff.mpr fun t ht => ?_⟩
    · rcases mem_cases safe ht with hex | hinvalid | hsk
      · exact h.recorded t hex hinto
      -- the transfer at which the loop stopped is of no audited token
      · have hnone : safe.tokenOf t = none := by
          simpa [AuditedSafeConfig.invalid, hinto] using hinvalid
        simp [hnone] at haudited
      · rcases (hskip t hsk hinto).2 with ⟨d,hd,hrec⟩ | ⟨t',ht',hinto',hsame⟩
        · exact ⟨d,h.kept d hd,hrec⟩
        · obtain ⟨d,hd,hrec⟩ := h.recorded t' ht' hinto'
          exact ⟨d,hd,hrec.of_same hsame⟩
    · cases hinto : safe.into t with
      | false => simp [AuditedSafeConfig.invalid, hinto]
      | true =>
        obtain ⟨token,htoken⟩ := Option.isSome_iff_exists.mp (hskip t ht hinto).1
        simp [AuditedSafeConfig.invalid, htoken]

/-- What one order of the transfers records, another order records too. -/
theorem Examined.recorded_of_perm {tx' : EthereumTransaction} {s'' : Db}
    (h : Examined safe tx.transfers s s') (h' : Examined safe tx'.transfers s s'')
    (hperm : tx'.transfers.Perm tx.transfers) (hskip : NothingSkipped safe tx' s)
    (t : EthereumTransfer) (ht : Recorded safe s' t) : Recorded safe s'' t := by
  obtain ⟨d,hd,hrec⟩ := ht
  rcases h.new d hd with hold | ⟨x,hx,hinto,hrecx⟩
  · exact ⟨d,h'.kept d hold,hrec⟩
  · obtain ⟨token,htoken,-⟩ := hrecx.amount
    obtain ⟨d',hd',hrec'⟩ := (h'.accounted_iff.mpr hskip).recorded x
      (hperm.mem_iff.mpr (mem_of_mem_examined hx)) hinto (by simp [htoken])
    exact ⟨d',hd',hrec'.of_same (hrecx.same hrec)⟩

/-- A new transaction whose processing commits was examined. -/
theorem examined_processTransactions {raw : RawGnosisTransaction} {hash : EthTxHash}
    (hhash : raw.txHash = .ok hash) (hfresh : hashProcessed s hash.toString = false)
    (hdec : raw.decode serde = .ok (.ethereum tx))
    (h : (safe.processTransactions serde [raw]).Returns s () s') :
    Examined safe tx.transfers s s' := by
  obtain ⟨s₁,hone,hnil⟩ := (Program.returns_forEach_cons _ _ _ _ _ _).mp h
  obtain rfl : s' = s₁ := (Program.returns_forEach_nil _ _ _ _).mp hnil
  obtain ⟨hash',hhash',⟨hseen,-⟩ | ⟨-,decoded,hdec',hp⟩⟩ :=
    (returns_processRawTransaction_iff serde raw s s' ()).mp hone
  · obtain rfl : hash = hash' := Except.ok.inj (hhash.symm.trans hhash')
    simp [hfresh] at hseen
  · obtain rfl : .ethereum tx = decoded := Except.ok.inj (hdec.symm.trans hdec')
    have hex : Examined safe tx.transfers (recordHash serde raw hash' s) s' :=
      examined_transfers tx.transfers ((returns_processDecoded_ethereum tx _ s' ()).mp hp)
    -- recording the hash changes no deposit and no counter
    exact ⟨hex.recorded,hex.kept,hex.new,hex.counted⟩

/-- All transfers of a new transaction are accounted for exactly when nothing that the database
does not account for follows the first invalid transfer. If that is so for two orders of the
transfers, both record the same. -/
theorem processed_transfers_accounted_iff (safe : AuditedSafeConfig) (serde : Serde) (s s' : Db)
    (raw : RawGnosisTransaction) (hash : EthTxHash) (tx : EthereumTransaction)
    (hhash : raw.txHash = .ok hash) (hfresh : hashProcessed s hash.toString = false)
    (hdec : raw.decode serde = .ok (.ethereum tx))
    (h : (safe.processTransactions serde [raw]).Returns s () s') :
    (TransfersAccounted safe tx s s' ↔ NothingSkipped safe tx s) ∧
    ∀ raw' hash' tx' s'', raw'.txHash = .ok hash' → hashProcessed s hash'.toString = false →
      raw'.decode serde = .ok (.ethereum tx') → tx'.transfers.Perm tx.transfers →
      (safe.processTransactions serde [raw']).Returns s () s'' →
      NothingSkipped safe tx s → NothingSkipped safe tx' s →
        ∀ t, Recorded safe s' t ↔ Recorded safe s'' t := by
  have hex := examined_processTransactions hhash hfresh hdec h
  refine ⟨hex.accounted_iff,?_⟩
  intro raw' hash' tx' s'' hhash' hfresh' hdec' hperm h' hskip hskip' t
  have hex' := examined_processTransactions hhash' hfresh' hdec' h'
  exact ⟨hex.recorded_of_perm hex' hperm hskip' t,hex'.recorded_of_perm hex hperm.symm hskip t⟩

/-! ### A transfer of an unknown token -/

/-- A transfer of a token into the first safe. -/
def transferOfToken (token : EthAddr) (value : String) : Json :=
  .object [("from",.string Reference.userAddr.text),("to",.string Reference.safeAddrA.text),
    ("tokenAddress",.string token.text),("transactionHash",.string (Reference.hashText '1')),
    ("type",.string "ERC20_TRANSFER"),("tokenInfo",.null),("value",.string value)]

def transfersTx (transfers : List Json) : RawGnosisTransaction :=
  ⟨.object [("txType",.string "ETHEREUM_TRANSACTION"),("txHash",.string (Reference.hashText '1')),
    ("blockNumber",.number "100"),("executionDate",.string "2022-05-24T21:45:04Z"),
    ("transfers",.array transfers)]⟩

/-- A transfer of the audited token, then one of an unknown token. -/
def knownFirst : RawGnosisTransaction := transfersTx
  [transferOfToken Reference.tokenAddr "3000000000000",transferOfToken Reference.userAddr "1"]

/-- The same transfers in the other order. -/
def unknownFirst : RawGnosisTransaction := transfersTx
  [transferOfToken Reference.userAddr "1",transferOfToken Reference.tokenAddr "3000000000000"]

/-- The database after the first safe processed the transaction. -/
def afterTx (tx : RawGnosisTransaction) : Db :=
  (Reference.safeA.processTransactions Reference.serde [tx] initialDb).state

def checkEthereum (p : EthereumTransaction → Bool) : Except GnosisError Transaction → Bool
  | .ok (.ethereum tx) => p tx
  | _ => false

theorem exists_of_checkEthereum {p : EthereumTransaction → Bool} {x : Except GnosisError Transaction}
    (h : checkEthereum p x = true) : ∃ tx, x = .ok (.ethereum tx) ∧ p tx = true := by
  rcases x with e | (tx | tx | v)
  · cases h
  · cases h
  · exact ⟨tx,rfl,h⟩
  · cases h

/-- With the audited token first, both transfers are accounted for. -/
theorem knownFirst_accounted : ∃ tx, knownFirst.decode Reference.serde = .ok (.ethereum tx) ∧
    TransfersAccounted Reference.safeA tx initialDb (afterTx knownFirst) := by
  have hfacts : knownFirst.txHash = .ok (Reference.hashOf 0x11) ∧
      hashProcessed initialDb (Reference.hashOf 0x11).toString = false ∧
      checkEthereum (fun tx => (Reference.safeA.skipped tx.transfers).isEmpty)
        (knownFirst.decode Reference.serde) = true ∧
      (Reference.safeA.processTransactions Reference.serde [knownFirst] initialDb).outcome.isOk =
        true := by
    decide +kernel
  obtain ⟨hhash,hfresh,hcheck,hok⟩ := hfacts
  obtain ⟨tx,hdec,hskip⟩ := exists_of_checkEthereum hcheck
  refine ⟨tx,hdec,(processed_transfers_accounted_iff _ _ _ _ _ _ tx hhash hfresh hdec
    (Program.returns_of_isOk hok)).1.mpr fun t ht => ?_⟩
  rw [List.isEmpty_iff.mp hskip] at ht
  simp at ht

/-- With the unknown token first, the transfer of the audited token is lost. -/
theorem unknownFirst_not_accounted : ∃ tx,
    unknownFirst.decode Reference.serde = .ok (.ethereum tx) ∧
    (Reference.safeA.processTransactions Reference.serde [unknownFirst]).Returns initialDb ()
      (afterTx unknownFirst) ∧
    ¬TransfersAccounted Reference.safeA tx initialDb (afterTx unknownFirst) := by
  have hfacts : checkEthereum (fun tx => tx.transfers.any fun t =>
        Reference.safeA.into t && (Reference.safeA.tokenOf t).isSome)
        (unknownFirst.decode Reference.serde) = true ∧
      (Reference.safeA.processTransactions Reference.serde [unknownFirst] initialDb).outcome.isOk =
        true ∧ (afterTx unknownFirst).gnosisSafeDeposits.rows.isEmpty = true := by
    decide +kernel
  obtain ⟨hcheck,hok,hempty⟩ := hfacts
  obtain ⟨tx,hdec,hany⟩ := exists_of_checkEthereum hcheck
  obtain ⟨t,ht,hboth⟩ := List.any_eq_true.mp hany
  obtain ⟨hinto,haudited⟩ := Bool.and_eq_true_iff.mp hboth
  refine ⟨tx,hdec,Program.returns_of_isOk hok,fun h => ?_⟩
  obtain ⟨d,hd,-⟩ := h.recorded t ht hinto haudited
  rw [List.isEmpty_iff.mp hempty] at hd
  simp at hd

end ReserveAuditor
