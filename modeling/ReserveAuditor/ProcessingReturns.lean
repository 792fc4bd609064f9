import ReserveAuditor.SafeIsolation
import ReserveAuditor.Totality
import ReserveAuditor.TransferAccounting
import ReserveAuditor.WithdrawalParser

/-! Which lists of Gnosis transactions are processed to the end: an error that is not counted
and passed over stops the auditor with a panic. -/
namespace ReserveAuditor
open Txn Relational
open Counters (Counts)

/-! ### What can be read of a transaction -/

/-- The transfer has an audited token, and a value whose truncation fits. -/
def EthereumTransfer.Deposits (t : EthereumTransfer) (safe : AuditedSafeConfig) : Prop :=
  ∃ token value amount, safe.tokenOf t = some token ∧ t.value = some value ∧
    truncateValue value token.decimals safe.tokenDecimalsMax = .ok amount

/-- The transfers into the safe before the first invalid one are deposits, and that one has a
token address. -/
structure TransfersReadable (safe : AuditedSafeConfig) (ts : List EthereumTransfer) : Prop where
  deposits : ∀ t ∈ safe.examined ts, safe.into t = true → t.Deposits safe
  tokens : ∀ t ∈ (ts.dropWhile fun t => !safe.invalid t).head?, t.tokenAddr.isSome = true

/-- A token multi-send from the safe has a first transfer with a value, and if it records a key, an
amount that can be truncated. -/
def MultiSigReadable (safe : AuditedSafeConfig) (tx : MultiSigTransaction) : Prop :=
  (tx.safe == safe.safeAddr) = true → ∀ p : TokenMultiSend, p.Of safe tx →
    tx.HasValue ∧ (p.RecordsKey → p.Truncates safe)

def Transaction.Readable (safe : AuditedSafeConfig) : Transaction → Prop
  | .ethereum tx => TransfersReadable safe tx.transfers
  | .multiSig tx => MultiSigReadable safe tx
  | .module _ => True

variable {safe : AuditedSafeConfig} {serde : Serde} {s s' : Db}

theorem depositOfTransfer_isOk_iff (tx : EthereumTransaction) (t : EthereumTransfer) :
    (∃ d, safe.depositOfTransfer tx t = .ok d) ↔ t.Deposits safe := by
  simp only [AuditedSafeConfig.depositOfTransfer, Outcome.bind_eq_ok, Outcome.okOr_eq_ok,
    Outcome.unwrap_eq_ok, Outcome.pure_eq_ok, EthereumTransfer.Deposits, AuditedSafeConfig.tokenOf,
    Option.bind_eq_some_iff]
  constructor
  · rintro ⟨d,tokenAddr,haddr,token,htoken,value,hvalue,amount,hamount,-⟩
    exact ⟨token,value,amount,⟨tokenAddr,haddr,htoken⟩,hvalue,hamount⟩
  · rintro ⟨token,value,amount,⟨tokenAddr,haddr,htoken⟩,hvalue,hamount⟩
    exact ⟨_,tokenAddr,haddr,token,htoken,value,hvalue,amount,hamount,rfl⟩

/-- The parser does not panic on what can be read. -/
theorem parse_ne_panic_iff (tx : MultiSigTransaction) :
    (∀ m, safe.parseWithdrawalWithPubKeyMultiSigTx tx ≠ .panic m) ↔
      ∀ p : TokenMultiSend, p.Of safe tx → tx.HasValue ∧ (p.RecordsKey → p.Truncates safe) := by
  rw [Outcome.not_panic_iff]
  by_cases hof : ∃ p : TokenMultiSend, p.Of safe tx
  · obtain ⟨p,hp⟩ := hof
    have hall : (∀ q : TokenMultiSend, q.Of safe tx → tx.HasValue ∧
        (q.RecordsKey → q.Truncates safe)) ↔ tx.HasValue ∧ (p.RecordsKey → p.Truncates safe) :=
      ⟨fun h => h p hp,fun h q hq => hp.unique hq ▸ h⟩
    rw [hall, parse_eq_of hp, withdrawal_noErr_iff, withdrawal_isOk_iff]
    tauto
  · exact iff_of_true (fun hn => absurd (exists_of_parse hn) hof) fun p hp => absurd ⟨p,hp⟩ hof

/-! ### One transaction -/

def depositHashes (s : Db) : List EthTxHash :=
  s.gnosisSafeDeposits.rows.map GnosisSafeDeposit.ethTxHash

def withdrawalHashes (s : Db) : List EthTxHash :=
  s.gnosisSafeWithdrawals.rows.map GnosisSafeWithdrawal.ethTxHash

theorem depositHashes_nodup (s : Db) : (depositHashes s).Nodup := by
  rw [depositHashes, List.Nodup, List.pairwise_map]
  refine s.gnosisSafeDeposits.unique.imp fun {a b} h he => ?_
  simp [Record.clash, he] at h

theorem withdrawalHashes_nodup (s : Db) : (withdrawalHashes s).Nodup := by
  rw [withdrawalHashes, List.Nodup, List.pairwise_map]
  refine s.gnosisSafeWithdrawals.unique.imp fun {a b} h he => ?_
  simp [Record.clash, he] at h

/-- Rows with new hashes can be stored beside those there are: their hashes were recorded, and no
two rows have one hash. -/
structure Storable (s : Db) (stored new : List EthTxHash) : Prop where
  processed : ∀ hash ∈ new, hashProcessed s hash.toString = true
  nodup : (stored ++ new).Nodup

theorem storable_nil (s : Db) {stored : List EthTxHash} (hn : stored.Nodup) : Storable s stored [] :=
  ⟨by simp,by simpa using hn⟩

theorem storable_singleton (s : Db) {stored : List EthTxHash} (hn : stored.Nodup) (hash : EthTxHash) :
    Storable s stored [hash] ↔ hashProcessed s hash.toString = true ∧ hash ∉ stored := by
  constructor
  · rintro ⟨hp,hnodup⟩
    exact ⟨hp hash List.mem_cons_self,fun hmem =>
      (List.nodup_append.mp hnodup).2.2 _ hmem _ List.mem_cons_self rfl⟩
  · rintro ⟨hp,hnew⟩
    refine ⟨by simpa using hp,List.nodup_append.mpr ⟨hn,List.nodup_singleton hash,?_⟩⟩
    rintro a ha b hb rfl
    exact hnew (List.mem_singleton.mp hb ▸ ha)

/-- A row is stored, and an attempt made to match it, if it clashes with no other one and what it
refers to is there. -/
theorem store_returns_iff {ρ β : Type} [Record ρ] {what : String} {get : Db → Table ρ}
    {set : Db → Table ρ → Db} {fk : Db → ρ → Bool} {f : ρ → Conn β} {r : ρ}
    (hid : Record.id r = none) (hf : ∀ r t, ¬(f r).Panics t) (s : Db) :
    (∃ s', (do
      let r ← insertUnsaved what get set fk r
      let _ ← Program.attempt (f r)
      pure () : Conn Unit).Returns s () s') ↔
    fk s r = true ∧ ∀ x ∈ (get s).rows, Record.clash x r = none := by
  simp only [Program.returns_bind, Program.returns_pure, returns_insertUnsaved]
  constructor
  · rintro ⟨_,_,_,⟨-,n,t,hi,hfk,-,-⟩,-⟩
    exact ⟨hfk,((Table.insert_eq_ok _ _ _ _).mp hi).1⟩
  · rintro ⟨hfk,hnew⟩
    -- the insert goes through, and an attempt that does not panic always returns
    obtain ⟨t,hi,-⟩ := Table.insert_returns (get s) hnew
    obtain ⟨x,s',hx⟩ := Program.attempt_returns
      (hf (Record.withId r (get s).nextKey) (set s t))
    exact ⟨s',_,_,⟨hid,_,t,hi,hfk,rfl,rfl⟩,x,s',hx,trivial,rfl⟩

theorem storeDeposit_returns_iff (safe : AuditedSafeConfig) (s : Db) {d₀ : GnosisSafeDeposit}
    (hid : d₀.id = none) :
    (∃ s', (safe.storeDeposit d₀).Returns s () s') ↔
    hashProcessed s d₀.ethTxHash.toString = true ∧ d₀.ethTxHash ∉ depositHashes s := by
  refine (store_returns_iff hid (fun d _ => not_panics_matchDeposit d safe) s).trans
    (and_congr_right fun _ => ?_)
  simp [depositHashes, Record.clash, EthTxHash.toString_injective.eq_iff]

theorem storeWithdrawal_returns_iff (safe : AuditedSafeConfig) (s : Db) {w₀ : GnosisSafeWithdrawal}
    (hid : w₀.id = none) :
    (∃ s', (safe.storeWithdrawal w₀).Returns s () s') ↔
    hashProcessed s w₀.ethTxHash.toString = true ∧ w₀.ethTxHash ∉ withdrawalHashes s := by
  refine (store_returns_iff hid (fun w _ => not_panics_matchWithdrawal w safe) s).trans
    (and_congr_right fun _ => ?_)
  simp [withdrawalHashes, Record.clash, EthTxHash.toString_injective.eq_iff]

section transfers
variable {tx : EthereumTransaction} {t : EthereumTransfer} {ts : List EthereumTransfer}

/-- A transfer into the safe is processed if it is a deposit that can be stored. -/
theorem processTransfer_returns_iff (hinto : safe.into t = true) :
    (∃ s', (safe.processTransfer tx t).Returns s () s') ↔
      ∃ d₀, safe.depositOfTransfer tx t = .ok d₀ ∧ hashProcessed s d₀.ethTxHash.toString = true ∧
        d₀.ethTxHash ∉ depositHashes s := by
  have hto : (t.toAddr == safe.safeAddr) = true := hinto
  have hstore (d₀ : GnosisSafeDeposit) (hd₀ : safe.depositOfTransfer tx t = .ok d₀) :=
    storeDeposit_returns_iff safe s (depositOfTransfer_valid hto hd₀).1
  simp only [AuditedSafeConfig.returns_processTransfer_iff, hto, reduceCtorEq, false_and, false_or,
    true_and]
  constructor
  · rintro ⟨s',d₀,hd₀,h⟩
    exact ⟨d₀,hd₀,(hstore d₀ hd₀).mp ⟨s',h⟩⟩
  · rintro ⟨d₀,hd₀,hnew⟩
    obtain ⟨s',h⟩ := (hstore d₀ hd₀).mpr hnew
    exact ⟨s',d₀,hd₀,h⟩

/-- A transfer into the safe of an unknown token is counted and ends the loop. -/
theorem processTransfer_fails_unknown (hc : s.counters.isSome = true) (hinvalid : safe.invalid t = true)
    (haddr : t.tokenAddr.isSome = true) :
    ∃ m s', (safe.processTransfer tx t).Fails s (.gnosis (.unknownToken m)) s' := by
  obtain ⟨hinto,hnone⟩ := Bool.and_eq_true_iff.mp hinvalid
  have hto : (t.toAddr == safe.safeAddr) = true := hinto
  obtain ⟨m,hm⟩ := (depositOfTransfer_unknown_iff tx t).mpr ⟨Option.isNone_iff_eq_none.mp hnone,haddr⟩
  obtain ⟨row,hrow⟩ := Option.isSome_iff_exists.mp hc
  refine ⟨m,{ s with counters := some (row.bump .numInvalidEthereumTransactions) },?_⟩
  refine AuditedSafeConfig.fails_processTransfer_iff.mpr ⟨hto,Or.inl ⟨_,hm,?_⟩⟩
  simp only [Program.fails_bind, Program.fails_fail]
  exact Or.inr ⟨(),_,(Counters.returns_inc _ _ _ _).mpr ⟨row,hrow,rfl⟩,trivial,rfl⟩

theorem depositsOf_cons_out (hout : safe.into t = false) :
    safe.depositsOf tx (t :: ts) = safe.depositsOf tx ts := by
  have hto : (t.toAddr == safe.safeAddr) = false := hout
  simp only [AuditedSafeConfig.depositsOf, hto, Bool.false_eq_true, ite_false]

theorem processTransfer_out (hout : safe.into t = false) :
    safe.processTransfer tx t = pure () := by
  have hto : (t.toAddr == safe.safeAddr) = false := hout
  simp only [AuditedSafeConfig.processTransfer, hto, Bool.false_eq_true, ite_false]

theorem depositsOf_cons_ok {d₀ : GnosisSafeDeposit} (hinto : safe.into t = true)
    (hd₀ : safe.depositOfTransfer tx t = .ok d₀) :
    safe.depositsOf tx (t :: ts) = d₀ :: safe.depositsOf tx ts := by
  have hto : (t.toAddr == safe.safeAddr) = true := hinto
  simp only [AuditedSafeConfig.depositsOf, hto, ite_true, hd₀]

theorem depositsOf_cons_none (hinto : safe.into t = true)
    (hnone : ∀ d₀, safe.depositOfTransfer tx t ≠ .ok d₀) : safe.depositsOf tx (t :: ts) = [] := by
  have hto : (t.toAddr == safe.safeAddr) = true := hinto
  simp only [AuditedSafeConfig.depositsOf, hto, ite_true]

theorem transfersReadable_cons (hvalid : safe.invalid t = false) :
    TransfersReadable safe (t :: ts) ↔
      (safe.into t = true → t.Deposits safe) ∧ TransfersReadable safe ts := by
  have hex : safe.examined (t :: ts) = t :: safe.examined ts := by
    simp [AuditedSafeConfig.examined, hvalid]
  -- the transfers in front of the first invalid one are those that are read
  have hdrop : ((t :: ts).dropWhile fun t => !safe.invalid t) =
      ts.dropWhile fun t => !safe.invalid t := by
    simp [hvalid]
  constructor
  · rintro ⟨hd,ht⟩
    rw [hex] at hd
    rw [hdrop] at ht
    exact ⟨hd t List.mem_cons_self,fun x hx => hd x (List.mem_cons_of_mem t hx),ht⟩
  · rintro ⟨h,hd,ht⟩
    refine ⟨?_,hdrop ▸ ht⟩
    rw [hex]
    intro x hx
    rcases List.mem_cons.mp hx with rfl | hx
    · exact h
    · exact hd x hx

theorem transfersReadable_invalid (hinvalid : safe.invalid t = true) :
    TransfersReadable safe (t :: ts) ↔ t.tokenAddr.isSome = true := by
  constructor
  · rintro ⟨-,ht⟩
    exact ht t (by simp [hinvalid])
  · intro h
    refine ⟨by simp [AuditedSafeConfig.examined, hinvalid],fun x hx => ?_⟩
    obtain rfl : t = x := by simpa [hinvalid] using hx
    exact h

/-- The loop over the transfers ends, perhaps at one of an unknown token. -/
def TransfersCommit (safe : AuditedSafeConfig) (tx : EthereumTransaction)
    (ts : List EthereumTransfer) (s : Db) : Prop :=
  (∃ s', (Program.forEach ts (safe.processTransfer tx)).Returns s () s') ∨
    ∃ m s', (Program.forEach ts (safe.processTransfer tx)).Fails s (.gnosis (.unknownToken m)) s'

theorem transfersCommit_cons : TransfersCommit safe tx (t :: ts) s ↔
    (∃ s₁, (safe.processTransfer tx t).Returns s () s₁ ∧ TransfersCommit safe tx ts s₁) ∨
      ∃ m s', (safe.processTransfer tx t).Fails s (.gnosis (.unknownToken m)) s' := by
  simp only [TransfersCommit, Program.returns_forEach_cons, Program.fails_forEach_cons]
  constructor
  · rintro (⟨s',s₁,hone,hrest⟩ | ⟨m,s',hone | ⟨s₁,hone,hrest⟩⟩)
    · exact Or.inl ⟨s₁,hone,Or.inl ⟨s',hrest⟩⟩
    · exact Or.inr ⟨m,s',hone⟩
    · exact Or.inl ⟨s₁,hone,Or.inr ⟨m,s',hrest⟩⟩
  · rintro (⟨s₁,hone,⟨s',hrest⟩ | ⟨m,s',hrest⟩⟩ | ⟨m,s',hone⟩)
    · exact Or.inl ⟨s',s₁,hone,hrest⟩
    · exact Or.inr ⟨m,s',Or.inr ⟨s₁,hone,hrest⟩⟩
    · exact Or.inr ⟨m,s',Or.inl hone⟩

end transfers

/-- The hashes of the deposits can be stored. -/
def DepositsStorable (s : Db) (ds : List GnosisSafeDeposit) : Prop :=
  Storable s (depositHashes s) (ds.map GnosisSafeDeposit.ethTxHash)

theorem depositsStorable_cons {d₀ : GnosisSafeDeposit} {ds : List GnosisSafeDeposit} {s₁ : Db} {n : ℕ}
    (hadd : DepositAdded safe s (Record.withId d₀ n) s₁) :
    DepositsStorable s (d₀ :: ds) ↔ DepositsStorable s₁ ds := by
  have hhashes : depositHashes s₁ = depositHashes s ++ [d₀.ethTxHash] := by
    rw [depositHashes, hadd.rows, List.map_append]
    rfl
  have hproc : ∀ h, hashProcessed s₁ h = hashProcessed s h := fun h => by
    rw [hashProcessed, hadd.rowsAdded.txs]
    rfl
  -- the new deposit moves from the list to the table, and the whole stays the same
  have hlist : depositHashes s ++ (d₀ :: ds).map GnosisSafeDeposit.ethTxHash =
      depositHashes s₁ ++ ds.map GnosisSafeDeposit.ethTxHash := by
    simp [hhashes]
  constructor
  · rintro ⟨hp,hn⟩
    exact ⟨fun hash hh => (hproc _).trans (hp hash (List.mem_cons_of_mem _ hh)),hlist ▸ hn⟩
  · rintro ⟨hp,hn⟩
    refine ⟨fun hash hh => ?_,hlist ▸ hn⟩
    rcases List.mem_cons.mp hh with rfl | hh
    · exact hadd.processed
    · exact (hproc _).symm.trans (hp hash hh)

/-- A transfer into the safe and what follows it are processed if it is a deposit and their deposits
can be stored together. -/
theorem transferInto_step {tx : EthereumTransaction} {t : EthereumTransfer}
    {ts : List EthereumTransfer} (hinto : safe.into t = true) {Rest : Db → Prop} {read : Prop}
    (hrest : ∀ s₁, (safe.processTransfer tx t).Returns s () s₁ →
      (Rest s₁ ↔ read ∧ DepositsStorable s₁ (safe.depositsOf tx ts))) :
    (∃ s₁, (safe.processTransfer tx t).Returns s () s₁ ∧ Rest s₁) ↔
      (t.Deposits safe ∧ read) ∧ DepositsStorable s (safe.depositsOf tx (t :: ts)) := by
  -- once the transfer is processed, what is left is the rest, from the state it leaves
  have hstep {d₀ : GnosisSafeDeposit} {s₁ : Db} (hone : (safe.processTransfer tx t).Returns s () s₁)
      (hd₀ : safe.depositOfTransfer tx t = .ok d₀) :
      Rest s₁ ↔ read ∧ DepositsStorable s (safe.depositsOf tx (t :: ts)) := by
    rcases returns_processTransfer hone with ⟨hout,-⟩ | ⟨-,d₁,n,hd₁,-,hadd⟩
    · simp [AuditedSafeConfig.into, hout] at hinto
    · obtain rfl : d₀ = d₁ := Outcome.ok.inj (hd₀.symm.trans hd₁)
      rw [hrest s₁ hone, depositsOf_cons_ok hinto hd₀, depositsStorable_cons hadd]
  constructor
  · rintro ⟨s₁,hone,hr⟩
    obtain ⟨d₀,hd₀,-⟩ := (processTransfer_returns_iff hinto).mp ⟨s₁,hone⟩
    obtain ⟨hread,hstore⟩ := (hstep hone hd₀).mp hr
    exact ⟨⟨(depositOfTransfer_isOk_iff tx t).mp ⟨d₀,hd₀⟩,hread⟩,hstore⟩
  · rintro ⟨⟨hdep,hread⟩,hstore⟩
    obtain ⟨d₀,hd₀⟩ := (depositOfTransfer_isOk_iff tx t).mpr hdep
    have hds : safe.depositsOf tx (t :: ts) = _ := depositsOf_cons_ok hinto hd₀
    -- the hashes to come are distinct from those stored
    have hnew : d₀.ethTxHash ∉ depositHashes s := by
      have hn := hstore.nodup
      rw [hds, List.nodup_append] at hn
      exact fun hmem => hn.2.2 _ hmem _ List.mem_cons_self rfl
    obtain ⟨s₁,hone⟩ := (processTransfer_returns_iff hinto).mpr
      ⟨d₀,hd₀,hstore.processed d₀.ethTxHash (hds ▸ List.mem_cons_self),hnew⟩
    exact ⟨s₁,hone,(hstep hone hd₀).mpr ⟨hread,hstore⟩⟩

/-- An Ethereum transaction is processed exactly if its transfers can be read and its deposits can
be stored. -/
theorem transfersCommit_iff (safe : AuditedSafeConfig) (tx : EthereumTransaction)
    (ts : List EthereumTransfer) (hc : s.counters.isSome = true) : TransfersCommit safe tx ts s ↔
      TransfersReadable safe ts ∧ DepositsStorable s (safe.depositsOf tx ts) := by
  induction ts generalizing s with
  | nil =>
    refine iff_of_true (Or.inl ⟨s,(Program.returns_forEach_nil _ _ _ _).mpr rfl⟩) ⟨?_,?_⟩
    · exact ⟨by simp [AuditedSafeConfig.examined],by simp⟩
    · exact storable_nil s (depositHashes_nodup s)
  | cons t ts ih =>
    rw [transfersCommit_cons]
    cases hinvalid : safe.invalid t with
    | true =>
      -- an invalid transfer gives no deposit, so the loop ends here
      have hnone (d₀ : GnosisSafeDeposit) : safe.depositOfTransfer tx t ≠ .ok d₀ := fun hd₀ => by
        simpa [hinvalid] using (depositOfTransfer_records hd₀ 0).not_invalid
      have hinto : safe.into t = true := (Bool.and_eq_true_iff.mp hinvalid).1
      have hds : safe.depositsOf tx (t :: ts) = [] := depositsOf_cons_none hinto hnone
      have hnot : ¬∃ s₁, (safe.processTransfer tx t).Returns s () s₁ ∧
          TransfersCommit safe tx ts s₁ := by
        rintro ⟨s₁,h,-⟩
        obtain ⟨d₀,hd₀,-⟩ := (processTransfer_returns_iff hinto).mp ⟨s₁,h⟩
        exact hnone d₀ hd₀
      rw [or_iff_right hnot, transfersReadable_invalid hinvalid, hds]
      constructor
      · rintro ⟨m,s',h⟩
        exact ⟨(fails_processTransfer_unknown h).2.1,storable_nil s (depositHashes_nodup s)⟩
      · rintro ⟨haddr,-⟩
        exact processTransfer_fails_unknown hc hinvalid haddr
    | false =>
      -- a transfer that is not invalid cannot fail with an unknown token
      have hnot : ¬∃ m s', (safe.processTransfer tx t).Fails s (.gnosis (.unknownToken m)) s' := by
        rintro ⟨m,s',h⟩
        simpa [hinvalid] using (fails_processTransfer_unknown h).1
      rw [or_iff_left hnot, transfersReadable_cons hinvalid]
      cases hinto : safe.into t with
      | false =>
        simp only [processTransfer_out hinto, depositsOf_cons_out hinto, Bool.false_eq_true,
          Program.returns_pure, true_and, exists_eq_left, false_implies]
        exact ih hc
      | true =>
        simp only [true_implies]
        refine transferInto_step hinto fun s₁ hone => ih ?_
        exact ((counts_processTransfer safe tx t).returns hone).isSome.trans hc

/-- A multi-sig transaction is processed exactly if it can be read and its withdrawal can be
stored: one that the parser refuses is counted. -/
theorem processMultiSigTransaction_returns_iff (tx : MultiSigTransaction)
    (hc : s.counters.isSome = true) :
    (∃ s', (safe.processMultiSigTransaction tx).Returns s () s') ↔ MultiSigReadable safe tx ∧
      Storable s (withdrawalHashes s)
        ((safe.withdrawalsOf tx).map GnosisSafeWithdrawal.ethTxHash) := by
  rw [AuditedSafeConfig.processMultiSigTransaction_eq]
  unfold AuditedSafeConfig.withdrawalsOf
  have hnil := storable_nil s (withdrawalHashes_nodup s)
  cases ha : (tx.safe == safe.safeAddr) with
  | false =>
    refine iff_of_true ⟨s,by simp⟩ ⟨fun h => ?_,by simpa using hnil⟩
    simp [ha] at h
  | true =>
    have hread : MultiSigReadable safe tx ↔
        ∀ m, safe.parseWithdrawalWithPubKeyMultiSigTx tx ≠ .panic m :=
      (imp_iff_right ha).trans (parse_ne_panic_iff tx).symm
    rw [hread]
    cases hparse : safe.parseWithdrawalWithPubKeyMultiSigTx tx with
    | ok w₀ =>
      have hstore := (storeWithdrawal_returns_iff safe s (parse_safeAddr hparse).1).trans
        (storable_singleton s (withdrawalHashes_nodup s) w₀.ethTxHash).symm
      simpa using hstore
    -- a transaction that is no withdrawal is counted, which succeeds when the row of counters
    -- exists
    | err e =>
      obtain ⟨row,hrow⟩ := Option.isSome_iff_exists.mp hc
      exact iff_of_true ⟨_,(Counters.returns_inc _ _ _ _).mpr ⟨row,hrow,rfl⟩⟩
        ⟨by simp,by simpa using hnil⟩
    | panic m =>
      refine iff_of_false ?_ fun h => h.1 m rfl
      rintro ⟨s',h⟩
      simp at h

/-! ### Raw transactions -/

/-- What a transaction stands for can be stored. -/
structure RowsStorable (s : Db) (ds : List GnosisSafeDeposit) (ws : List GnosisSafeWithdrawal) :
    Prop where
  deposits : Storable s (depositHashes s) (ds.map GnosisSafeDeposit.ethTxHash)
  withdrawals : Storable s (withdrawalHashes s) (ws.map GnosisSafeWithdrawal.ethTxHash)

theorem processDecoded_returns_iff (safe : AuditedSafeConfig) (decoded : Transaction)
    (hc : s.counters.isSome = true) :
    (∃ s', (safe.processDecoded decoded).Returns s () s') ↔ decoded.Readable safe ∧
      RowsStorable s (safe.recordedDeposits decoded) (safe.recordedWithdrawals decoded) := by
  have hdeposits := storable_nil s (depositHashes_nodup s)
  have hwithdrawals := storable_nil s (withdrawalHashes_nodup s)
  cases decoded with
  | ethereum tx =>
    have h := transfersCommit_iff safe tx tx.transfers hc
    constructor
    · rintro ⟨s',hr⟩
      -- the loop commits what it did, also when it ended with an unknown token
      have hcommit : TransfersCommit safe tx tx.transfers s := by
        rcases (returns_processDecoded_ethereum tx s s' ()).mp hr with ⟨v,hv⟩ | ⟨m,hm⟩
        · exact Or.inl ⟨s',hv⟩
        · exact Or.inr ⟨m,s',hm⟩
      obtain ⟨hread,hstore⟩ := h.mp hcommit
      exact ⟨hread,hstore,hwithdrawals⟩
    · rintro ⟨hread,hstore,-⟩
      rcases h.mpr ⟨hread,hstore⟩ with ⟨s',hs'⟩ | ⟨m,s',hs'⟩
      · exact ⟨s',(returns_processDecoded_ethereum tx s s' ()).mpr (Or.inl ⟨(),hs'⟩)⟩
      · exact ⟨s',(returns_processDecoded_ethereum tx s s' ()).mpr (Or.inr ⟨m,hs'⟩)⟩
  | multiSig tx =>
    refine (processMultiSigTransaction_returns_iff tx hc).trans (and_congr_right fun _ => ?_)
    exact ⟨fun h => ⟨hdeposits,h⟩,fun h => h.withdrawals⟩
  | module v =>
    exact iff_of_true ⟨s,(Program.returns_pure () () s s).mpr ⟨rfl,rfl⟩⟩
      ⟨trivial,hdeposits,hwithdrawals⟩

namespace AuditedSafeConfig

/-- The hashes of the deposits that a raw transaction stands for. -/
def depositHashesOf (safe : AuditedSafeConfig) (serde : Serde) (tx : RawGnosisTransaction) :
    List EthTxHash :=
  match tx.decode serde with
  | .ok decoded => (safe.recordedDeposits decoded).map GnosisSafeDeposit.ethTxHash
  | .error _ => []

/-- The hashes of the withdrawals that a raw transaction stands for. -/
def withdrawalHashesOf (safe : AuditedSafeConfig) (serde : Serde) (tx : RawGnosisTransaction) :
    List EthTxHash :=
  match tx.decode serde with
  | .ok decoded => (safe.recordedWithdrawals decoded).map GnosisSafeWithdrawal.ethTxHash
  | .error _ => []

/-- The hashes of the rows that a raw transaction stands for. -/
def rowHashesOf (safe : AuditedSafeConfig) (serde : Serde) (tx : RawGnosisTransaction) :
    List EthTxHash := safe.depositHashesOf serde tx ++ safe.withdrawalHashesOf serde tx

end AuditedSafeConfig

/-- Every transaction decodes to one that can be read, its rows have the hash of a transaction that
was processed by then, and no two deposits or two withdrawals have one hash. -/
structure Digestible (safe : AuditedSafeConfig) (serde : Serde) (s : Db)
    (txs : List RawGnosisTransaction) : Prop where
  readable : ∀ tx ∈ txs, ∃ decoded, tx.decode serde = .ok decoded ∧ decoded.Readable safe
  recorded : ∀ before tx after, txs = before ++ tx :: after → ∀ hash ∈ safe.rowHashesOf serde tx,
    hashProcessed s hash.toString = true ∨ ∃ tx' ∈ before ++ [tx], tx'.txHash = .ok hash
  deposits : (depositHashes s ++ txs.flatMap (safe.depositHashesOf serde)).Nodup
  withdrawals : (withdrawalHashes s ++ txs.flatMap (safe.withdrawalHashesOf serde)).Nodup

section lists
variable {tx : RawGnosisTransaction} {txs : List RawGnosisTransaction} {hash : EthTxHash} {s₁ : Db}

theorem depositHashes_eq (s : Db) :
    depositHashes s = (storedDeposits s).map GnosisSafeDeposit.ethTxHash := by
  rw [depositHashes, storedDeposits, List.map_map]
  rfl

theorem withdrawalHashes_eq (s : Db) :
    withdrawalHashes s = (storedWithdrawals s).map GnosisSafeWithdrawal.ethTxHash := by
  rw [withdrawalHashes, storedWithdrawals, List.map_map]
  rfl

theorem RowsAdded.hashes {ds : List GnosisSafeDeposit} {ws : List GnosisSafeWithdrawal}
    (h : RowsAdded s ds ws s') :
    depositHashes s' = depositHashes s ++ ds.map GnosisSafeDeposit.ethTxHash ∧
      withdrawalHashes s' = withdrawalHashes s ++ ws.map GnosisSafeWithdrawal.ethTxHash := by
  constructor
  · rw [depositHashes_eq, depositHashes_eq, h.deposits, List.map_append, List.map_map]
    rfl
  · rw [withdrawalHashes_eq, withdrawalHashes_eq, h.withdrawals, List.map_append, List.map_map]
    rfl

/-- A new transaction adds the hashes of the rows that it stands for. -/
theorem RawProcessed.hashes (h : RawProcessed safe serde s tx hash s₁)
    (hnew : hashProcessed s hash.toString = false) :
    depositHashes s₁ = depositHashes s ++ safe.depositHashesOf serde tx ∧
      withdrawalHashes s₁ = withdrawalHashes s ++ safe.withdrawalHashesOf serde tx := by
  cases h with
  | skipped seen => simp [hnew] at seen
  | recorded _ decoded hdec hp =>
    simp only [AuditedSafeConfig.depositHashesOf, AuditedSafeConfig.withdrawalHashesOf, hdec]
    exact hp.rowsAdded.hashes

theorem digestible_singleton {decoded : Transaction} (hhash : tx.txHash = .ok hash)
    (hdec : tx.decode serde = .ok decoded) : Digestible safe serde s [tx] ↔
      decoded.Readable safe ∧ RowsStorable (recordHash serde tx hash s)
        (safe.recordedDeposits decoded) (safe.recordedWithdrawals decoded) := by
  have hds : safe.depositHashesOf serde tx =
      (safe.recordedDeposits decoded).map GnosisSafeDeposit.ethTxHash := by
    simp only [AuditedSafeConfig.depositHashesOf, hdec]
  have hws : safe.withdrawalHashesOf serde tx =
      (safe.recordedWithdrawals decoded).map GnosisSafeWithdrawal.ethTxHash := by
    simp only [AuditedSafeConfig.withdrawalHashesOf, hdec]
  -- the transaction's own hash is recorded before its rows are stored
  have hknown (x : EthTxHash) : (hashProcessed s x.toString = true ∨
      ∃ tx' ∈ ([] : List RawGnosisTransaction) ++ [tx], tx'.txHash = .ok x) ↔
      hashProcessed (recordHash serde tx hash s) x.toString = true := by
    simp [hashProcessed_recordHash, hhash, eq_comm (a := hash)]
  constructor
  · rintro ⟨hread,hrec,hd,hw⟩
    obtain ⟨decoded',hdec',hread⟩ := hread tx List.mem_cons_self
    obtain rfl : decoded = decoded' := Except.ok.inj (hdec.symm.trans hdec')
    have hproc (x : EthTxHash) (hx : x ∈ safe.rowHashesOf serde tx) :=
      (hknown x).mp (hrec [] tx [] rfl x hx)
    rw [List.flatMap_singleton, hds] at hd
    rw [List.flatMap_singleton, hws] at hw
    exact ⟨hread,⟨fun x hx => hproc x (List.mem_append_left _ (hds ▸ hx)),hd⟩,
      ⟨fun x hx => hproc x (List.mem_append_right _ (hws ▸ hx)),hw⟩⟩
  · rintro ⟨hread,hd,hw⟩
    refine ⟨by simpa using ⟨decoded,hdec,hread⟩,fun before tx' after htxs x hx => ?_,?_,?_⟩
    · obtain ⟨rfl,rfl,rfl⟩ : before = [] ∧ tx' = tx ∧ after = [] := by
        cases before <;> simp_all
      rw [AuditedSafeConfig.rowHashesOf, hds, hws, List.mem_append] at hx
      exact (hknown x).mpr (hx.elim (hd.processed x) (hw.processed x))
    · rw [List.flatMap_singleton, hds]
      exact hd.nodup
    · rw [List.flatMap_singleton, hws]
      exact hw.nodup

/-- A new transaction is processed exactly if it is digestible. -/
theorem processRawTransaction_returns_iff (hhash : tx.txHash = .ok hash)
    (hnew : hashProcessed s hash.toString = false) (hc : s.counters.isSome = true) :
    (∃ s', (safe.processRawTransaction serde tx).Returns s () s') ↔ Digestible safe serde s [tx] := by
  have hdecoded (decoded : Transaction) :=
    processDecoded_returns_iff (s := recordHash serde tx hash s) safe decoded hc
  constructor
  · rintro ⟨s',h⟩
    obtain ⟨hash',hhash',hcases⟩ := (returns_processRawTransaction_iff serde tx s s' ()).mp h
    obtain rfl : hash = hash' := Except.ok.inj (hhash.symm.trans hhash')
    obtain ⟨hseen,-⟩ | ⟨-,decoded,hdec,hp⟩ := hcases
    · simp [hnew] at hseen
    · exact (digestible_singleton hhash hdec).mpr ((hdecoded decoded).mp ⟨s',hp⟩)
  · intro h
    obtain ⟨decoded,hdec,-⟩ := h.readable tx List.mem_cons_self
    obtain ⟨s',hp⟩ := (hdecoded decoded).mpr ((digestible_singleton hhash hdec).mp h)
    exact ⟨s',(returns_processRawTransaction_iff serde tx s s' ()).mpr
      ⟨hash,hhash,Or.inr ⟨hnew,decoded,hdec,hp⟩⟩⟩

theorem Digestible.head (h : Digestible safe serde s (tx :: txs)) :
    Digestible safe serde s [tx] where
  readable x hx := h.readable x (List.mem_cons.mpr (Or.inl (List.mem_singleton.mp hx)))
  recorded before x after htxs := h.recorded before x (after ++ txs) (by
    rw [← List.cons_append, ← List.append_assoc, ← htxs]
    rfl)
  deposits := by
    refine h.deposits.sublist (List.Sublist.append_left ?_ _)
    simp
  withdrawals := by
    refine h.withdrawals.sublist (List.Sublist.append_left ?_ _)
    simp

/-- After a new transaction was processed, the rest is digestible if all was before. -/
theorem digestible_cons (hhash : tx.txHash = .ok hash) (hp : RawProcessed safe serde s tx hash s₁)
    (hnew : hashProcessed s hash.toString = false) : Digestible safe serde s (tx :: txs) ↔
      Digestible safe serde s [tx] ∧ Digestible safe serde s₁ txs := by
  obtain ⟨hds,hws⟩ := hp.hashes hnew
  -- what the first one recorded counts as processed for the rest
  have hknown (before : List RawGnosisTransaction) (x : EthTxHash) :
      (hashProcessed s₁ x.toString = true ∨ ∃ tx' ∈ before, tx'.txHash = .ok x) ↔
      hashProcessed s x.toString = true ∨ ∃ tx' ∈ tx :: before, tx'.txHash = .ok x := by
    simp [hp.hashProcessed_iff, hhash, or_assoc, eq_comm (a := hash)]
  have hdeposits : depositHashes s ++ (tx :: txs).flatMap (safe.depositHashesOf serde) =
      depositHashes s₁ ++ txs.flatMap (safe.depositHashesOf serde) := by
    rw [hds, List.flatMap_cons, List.append_assoc]
  have hwithdrawals : withdrawalHashes s ++ (tx :: txs).flatMap (safe.withdrawalHashesOf serde) =
      withdrawalHashes s₁ ++ txs.flatMap (safe.withdrawalHashesOf serde) := by
    rw [hws, List.flatMap_cons, List.append_assoc]
  constructor
  · intro h
    refine ⟨h.head,fun x hx => h.readable x (List.mem_cons_of_mem tx hx),
      fun before x after htxs y hy => ?_,hdeposits ▸ h.deposits,hwithdrawals ▸ h.withdrawals⟩
    rw [hknown]
    exact h.recorded (tx :: before) x after (by rw [htxs, List.cons_append]) y hy
  · rintro ⟨hone,hrest⟩
    refine ⟨?_,?_,hdeposits ▸ hrest.deposits,hwithdrawals ▸ hrest.withdrawals⟩
    · intro x hx
      rcases List.mem_cons.mp hx with rfl | hx
      · exact hone.readable x List.mem_cons_self
      · exact hrest.readable x hx
    · intro before x after htxs y hy
      cases before with
      | nil =>
        obtain ⟨rfl,-⟩ := List.cons.inj htxs
        exact hone.recorded [] tx [] rfl y hy
      | cons z before =>
        obtain ⟨rfl,htail⟩ := List.cons.inj htxs
        exact (hknown (before ++ [x]) y).mp (hrest.recorded before x after htail y hy)

/-- The transactions have valid hashes, pairwise different and not yet processed. -/
structure AllNew (s : Db) (txs : List RawGnosisTransaction) : Prop where
  fresh : ∀ tx ∈ txs, ∃ hash, tx.txHash = .ok hash ∧ hashProcessed s hash.toString = false
  distinct : (txs.map RawGnosisTransaction.txHash).Nodup

theorem AllNew.tail (h : AllNew s (tx :: txs)) (hhash : tx.txHash = .ok hash)
    (hp : RawProcessed safe serde s tx hash s₁) : AllNew s₁ txs := by
  obtain ⟨hnot,hdistinct⟩ := List.nodup_cons.mp h.distinct
  refine ⟨fun x hx => ?_,hdistinct⟩
  obtain ⟨hash',hhash',hfresh⟩ := h.fresh x (List.mem_cons_of_mem tx hx)
  refine ⟨hash',hhash',?_⟩
  have hne : hash' ≠ hash := by
    rintro rfl
    exact hnot (hhash ▸ hhash' ▸ List.mem_map_of_mem hx)
  rw [Bool.eq_false_iff, ne_eq, hp.hashProcessed_iff]
  simp [hfresh, hne]

/-- New transactions are processed to the end exactly if they are digestible. -/
theorem processTransactions_returns_iff (safe : AuditedSafeConfig) (serde : Serde)
    (txs : List RawGnosisTransaction)
    (hc : s.counters.isSome = true) (hnew : AllNew s txs) :
    (∃ s', (safe.processTransactions serde txs).Returns s () s') ↔
      Digestible safe serde s txs := by
  unfold AuditedSafeConfig.processTransactions
  induction txs generalizing s with
  | nil =>
    refine iff_of_true ⟨s,(Program.returns_forEach_nil _ _ _ _).mpr rfl⟩ ⟨by simp,by simp,?_,?_⟩
    · simpa using depositHashes_nodup s
    · simpa using withdrawalHashes_nodup s
  | cons tx txs ih =>
    obtain ⟨hash,hhash,hfresh⟩ := hnew.fresh tx List.mem_cons_self
    have hstep {s₁ : Db} (hone : (safe.processRawTransaction serde tx).Returns s () s₁) :
        (∃ s', (Program.forEach txs (safe.processRawTransaction serde)).Returns s₁ () s') ↔
          Digestible safe serde s (tx :: txs) := by
      have hp := rawProcessed_of_returns hhash hone
      have hc₁ : s₁.counters.isSome = true :=
        (counts_processRawTransaction safe serde tx).returns hone |>.isSome.trans hc
      rw [ih hc₁ (hnew.tail hhash hp), digestible_cons hhash hp hfresh]
      exact (and_iff_right ((processRawTransaction_returns_iff hhash hfresh hc).mp ⟨s₁,hone⟩)).symm
    simp only [Program.returns_forEach_cons]
    constructor
    · rintro ⟨s',s₁,hone,hrest⟩
      exact (hstep hone).mp ⟨s',hrest⟩
    · intro h
      obtain ⟨s₁,hone⟩ := (processRawTransaction_returns_iff hhash hfresh hc).mpr h.head
      obtain ⟨s',hrest⟩ := (hstep hone).mpr h
      exact ⟨s',s₁,hone,hrest⟩

theorem AllNew.drop {before : List RawGnosisTransaction} {u : Unit} (h : AllNew s (before ++ txs))
    (hp : (safe.processTransactions serde before).Returns s u s₁) : AllNew s₁ txs := by
  unfold AuditedSafeConfig.processTransactions at hp
  induction before generalizing s with
  | nil => exact (Program.returns_forEach_nil _ _ _ _).mp hp ▸ h
  | cons tx before ih =>
    obtain ⟨t,hone,hrest⟩ := (Program.returns_forEach_cons _ _ _ _ _ _).mp hp
    obtain ⟨hash,hhash,-⟩ := h.fresh tx List.mem_cons_self
    exact ih (AllNew.tail h hhash (rawProcessed_of_returns hhash hone)) hrest

end lists

/-! ### One transaction among others -/

/-- Deposits and withdrawals were stored. -/
def Stores (s : Db) (ds : List GnosisSafeDeposit) (ws : List GnosisSafeWithdrawal) (s' : Db) : Prop :=
  storedDeposits s' = storedDeposits s ++ ds ∧ storedWithdrawals s' = storedWithdrawals s ++ ws

/-- The transactions are processed to the end, and each one that is processed on its own is
processed among the others with the same rows. -/
structure AuditedApart (safe : AuditedSafeConfig) (serde : Serde) (s : Db)
    (txs : List RawGnosisTransaction) : Prop where
  returns : ∃ s', (safe.processTransactions serde txs).Returns s () s'
  same : ∀ before tx after, txs = before ++ tx :: after → ∀ s₁,
    (safe.processTransactions serde [tx]).Returns s () s₁ → ∃ t t' ds ws,
      (safe.processTransactions serde before).Returns s () t ∧
      (safe.processTransactions serde [tx]).Returns t () t' ∧ Stores s ds ws s₁ ∧ Stores t ds ws t'

/-- A new transaction stores what it stands for. -/
theorem stores_of_returns {tx : RawGnosisTransaction} {hash : EthTxHash}
    (hhash : tx.txHash = .ok hash) (hfresh : hashProcessed s hash.toString = false)
    (h : (safe.processTransactions serde [tx]).Returns s () s') :
    ∃ decoded, tx.decode serde = .ok decoded ∧
      Stores s ((safe.recordedDeposits decoded).map GnosisSafeDeposit.unsaved)
        ((safe.recordedWithdrawals decoded).map GnosisSafeWithdrawal.unsaved) s' := by
  obtain ⟨s₁,hone,hnil⟩ := (Program.returns_forEach_cons _ _ _ _ _ _).mp h
  obtain rfl : s' = s₁ := (Program.returns_forEach_nil _ _ _ _).mp hnil
  cases rawProcessed_of_returns hhash hone with
  | skipped seen => simp [hfresh] at seen
  | recorded _ decoded hdec hp => exact ⟨decoded,hdec,hp.rowsAdded.deposits,hp.rowsAdded.withdrawals⟩

/-- New transactions are audited each apart from the others exactly if they are digestible. -/
theorem transactions_audited_apart_iff {config : GnosisSafeConfig} (ext : Externals) (serde : Serde)
    (steps : List (Step config)) (safe : AuditedSafeConfig) (txs : List RawGnosisTransaction)
    (hnew : AllNew (Step.run ext serde steps) txs) :
    AuditedApart safe serde (Step.run ext serde steps) txs ↔
      Digestible safe serde (Step.run ext serde steps) txs := by
  have hreturns := processTransactions_returns_iff safe serde txs
    (run_counters ext serde steps) hnew
  refine ⟨fun h => hreturns.mp h.returns,fun h => ⟨hreturns.mpr h,?_⟩⟩
  obtain ⟨s',hs'⟩ := hreturns.mpr h
  rintro before tx after rfl s₁ halone
  -- in the whole run it starts from `t`, which the ones before it left
  obtain ⟨t,hbefore,hrest⟩ := (Program.returns_forEach_append _ _ _ _ _ _).mp hs'
  obtain ⟨t',hone,-⟩ := (Program.returns_forEach_cons _ _ _ _ _ _).mp hrest
  have hone' : (safe.processTransactions serde [tx]).Returns t () t' :=
    (Program.returns_forEach_cons _ _ _ _ _ _).mpr
      ⟨t',hone,(Program.returns_forEach_nil _ _ _ _).mpr rfl⟩
  obtain ⟨hash,hhash,hfresh⟩ := hnew.fresh tx (by simp)
  obtain ⟨hash',hhash',hfresh'⟩ := (AllNew.drop hnew hbefore).fresh tx List.mem_cons_self
  obtain ⟨decoded,hdec,hstores⟩ := stores_of_returns hhash hfresh halone
  obtain ⟨decoded',hdec',hstores'⟩ := stores_of_returns hhash' hfresh' hone'
  -- decoding reads the transaction only, so both runs store the same rows
  obtain rfl : decoded = decoded' := Except.ok.inj (hdec.symm.trans hdec')
  exact ⟨t,t',_,_,hbefore,hone',hstores,hstores'⟩

/-! ### A plain transfer of ether -/

/-- A transfer of ether into the first safe: there is no token address. -/
def plainEther : RawGnosisTransaction := transfersTx
  [.object [("from",.string Reference.userAddr.text),("to",.string Reference.safeAddrA.text),
    ("tokenAddress",.null),("transactionHash",.string (Reference.hashText '1')),
    ("type",.string "ETHER_TRANSFER"),("tokenInfo",.null),
    ("value",.string "1000000000000000000")]]

def goodDeposit : RawGnosisTransaction :=
  Reference.depositTx 'a' [(Reference.safeAddrA,"3000000000000")]

theorem allNew_pair {tx tx' : RawGnosisTransaction} {hash hash' : EthTxHash}
    (hhash : tx.txHash = .ok hash) (hhash' : tx'.txHash = .ok hash') (hne : hash ≠ hash')
    (hfresh : hashProcessed s hash.toString = false)
    (hfresh' : hashProcessed s hash'.toString = false) : AllNew s [tx,tx'] where
  fresh := by simp [hhash, hhash', hfresh, hfresh']
  distinct := by simp [hhash, hhash', hne]

/-- A transfer of an unknown token does not stop the deposit that comes after it. -/
theorem unknownToken_audited_apart : AuditedApart Reference.safeA Reference.serde
    (Step.run Reference.externals Reference.serde ([] : List (Step Reference.config)))
    [unknownFirst,goodDeposit] := by
  have hfacts : unknownFirst.txHash = .ok (Reference.hashOf 0x11) ∧
      goodDeposit.txHash = .ok (Reference.hashOf 0xaa) ∧
      Reference.hashOf 0x11 ≠ Reference.hashOf 0xaa ∧
      hashProcessed initialDb (Reference.hashOf 0x11).toString = false ∧
      hashProcessed initialDb (Reference.hashOf 0xaa).toString = false ∧
      (Reference.safeA.processTransactions Reference.serde [unknownFirst,goodDeposit]
        initialDb).outcome.isOk = true := by
    decide +kernel
  obtain ⟨hhash,hhash',hne,hfresh,hfresh',hok⟩ := hfacts
  have hnew : AllNew (Step.run Reference.externals Reference.serde
      ([] : List (Step Reference.config))) [unknownFirst,goodDeposit] :=
    allNew_pair hhash hhash' hne hfresh hfresh'
  exact (transactions_audited_apart_iff _ _ _ _ _ hnew).mpr
    ((processTransactions_returns_iff _ _ _ (run_counters _ _ _) hnew).mp
      ⟨_,Program.returns_of_isOk hok⟩)

/-- A transfer of ether stops the deposit that comes after it. -/
theorem plainEther_not_audited_apart :
    let s := Step.run Reference.externals Reference.serde ([] : List (Step Reference.config))
    AllNew s [plainEther,goodDeposit] ∧
    (∃ s₁, (Reference.safeA.processTransactions Reference.serde [goodDeposit]).Returns s () s₁) ∧
    ¬AuditedApart Reference.safeA Reference.serde s [plainEther,goodDeposit] := by
  have hfacts : plainEther.txHash = .ok (Reference.hashOf 0x11) ∧
      goodDeposit.txHash = .ok (Reference.hashOf 0xaa) ∧
      Reference.hashOf 0x11 ≠ Reference.hashOf 0xaa ∧
      hashProcessed initialDb (Reference.hashOf 0x11).toString = false ∧
      hashProcessed initialDb (Reference.hashOf 0xaa).toString = false ∧
      (Reference.safeA.processTransactions Reference.serde [goodDeposit] initialDb).outcome.isOk =
        true ∧
      (Reference.safeA.processTransactions Reference.serde [plainEther,goodDeposit]
        initialDb).outcome.isOk = false := by
    decide +kernel
  obtain ⟨hhash,hhash',hne,hfresh,hfresh',hok,hpanic⟩ := hfacts
  refine ⟨allNew_pair hhash hhash' hne hfresh hfresh',⟨_,Program.returns_of_isOk hok⟩,fun h => ?_⟩
  -- the first transaction panics, so the list as a whole does not return
  obtain ⟨s',hs'⟩ := h.returns
  have hisOk : (Reference.safeA.processTransactions Reference.serde [plainEther,goodDeposit]
      initialDb).outcome.isOk = true := (Outcome.isOk_iff _).mpr ⟨(),hs'.1⟩
  rw [hpanic] at hisOk
  cases hisOk

end ReserveAuditor
