import ReserveAuditor.Intact
import ReserveAuditor.MatchOutcome
import ReserveAuditor.ProcessingReturns

/-! What the processing of an Ethereum transaction counts before it ends, perhaps in a panic that
puts the counters back. -/
namespace ReserveAuditor
open Txn Relational

variable {safe : AuditedSafeConfig} {serde : Serde} {s s' : Db}

/-! ### One transfer -/

/-- There is a mint that the deposit will be matched with. -/
def GnosisSafeDeposit.HasMint (d : GnosisSafeDeposit) (safe : AuditedSafeConfig) (s : Db) : Prop :=
  ∃ m, MintTx.findUnauditedMintTxByNonce d.expectedMcMintTxNonceHex s = some m ∧
    AuditedMint.verifyMintTxMatchesDeposit m d safe = .ok ()

/-- No match refers to a deposit that was just stored. -/
theorem inserted_matchable_iff (hm : MintRefs s) {d₀ : GnosisSafeDeposit} {n : ℕ}
    {t : Table GnosisSafeDeposit} (hi : s.gnosisSafeDeposits.insert d₀ = .ok (n,t)) :
    (Record.withId d₀ n).Matchable safe { s with gnosisSafeDeposits := t } ↔
      d₀.HasMint safe s := by
  obtain ⟨-,hn,ht⟩ := (Table.insert_eq_ok _ _ _ _).mp hi
  have hfind : t.find n = some (Record.withId d₀ n) := Table.find_last ht rfl
  -- all matches name older ids, so the deposit just stored is in none
  have hfree : GnosisSafeDeposit.isAudited { s with gnosisSafeDeposits := t }
      (Record.withId d₀ n) = false := by
    simp only [GnosisSafeDeposit.isAudited, List.any_eq_false, decide_eq_true_eq]
    rintro a ha he
    obtain ⟨-,d,hd⟩ := hm a ha
    obtain ⟨hmem,hid⟩ := (Table.find_eq_some _ _ _).mp hd
    have hkey := s.gnosisSafeDeposits.keyed d hmem
    have hlt := s.gnosisSafeDeposits.key_lt_nextKey d hmem
    have hsame : a.gnosisSafeDepositId = n := Option.some.inj he
    rw [hid, hsame, Option.some.injEq] at hkey
    omega
  exact ⟨fun h => h.partner,fun h => ⟨⟨n,rfl,Option.isSome_of_eq_some hfind⟩,hfree,h⟩⟩

theorem publishes_storeDeposit_iff (safe : AuditedSafeConfig) {d₀ : GnosisSafeDeposit}
    (hid : d₀.id = none) (hm : MintRefs s) (hc : s.counters.isSome = true) :
    (safe.storeDeposit d₀).Publishes s ↔
    hashProcessed s d₀.ethTxHash.toString = true ∧ d₀.ethTxHash ∉ depositHashes s ∧
      ¬d₀.HasMint safe s := by
  -- the matching counts when it fails, and it fails when there is no mint for the deposit
  have hmatch {n : ℕ} {t : Table GnosisSafeDeposit}
      (hi : s.gnosisSafeDeposits.insert d₀ = .ok (n,t)) :
      (AuditedMint.tryMatchDepositWithMint (Record.withId d₀ n) safe).Publishes
        { s with gnosisSafeDeposits := t } ↔ ¬d₀.HasMint safe s := by
    have hrefs := hm.insertDeposit ((Table.insert_eq_ok _ _ _ _).mp hi).2.2
    have hsome : ({ s with gnosisSafeDeposits := t } : Db).counters.isSome = true := hc
    rw [(countsLast_matchDeposit _ safe).publishes_iff _ hsome, matchDeposit_returns_iff hrefs,
      inserted_matchable_iff hm hi]
  -- a deposit clashes with a stored one of the same hash only
  have hnew : d₀.ethTxHash ∉ depositHashes s ↔
      ∀ x ∈ s.gnosisSafeDeposits.rows, Record.clash x d₀ = none := by
    simp [depositHashes, Record.clash, EthTxHash.toString_injective.eq_iff]
  have hinsert : ¬d₀.insert.Publishes s := not_publishes_of_quiet (quiet_insertDeposit d₀) s
  simp only [AuditedSafeConfig.storeDeposit, Program.publishes_bind, hinsert, false_or,
    Program.publishes_attempt, Program.not_publishes_pure, and_false, exists_false, or_false]
  simp only [GnosisSafeDeposit.insert, returns_insertUnsaved, hnew]
  constructor
  · rintro ⟨_,_,⟨-,n,t,hi,hp,rfl,rfl⟩,h⟩
    exact ⟨hp,((Table.insert_eq_ok _ _ _ _).mp hi).1,(hmatch hi).mp h⟩
  · rintro ⟨hp,hclash,h⟩
    obtain ⟨t,hi,-⟩ := Table.insert_returns s.gnosisSafeDeposits hclash
    exact ⟨_,_,⟨hid,_,t,hi,hp,rfl,rfl⟩,(hmatch hi).mpr h⟩

/-- A transfer is counted if it is into the safe and invalid, or if its deposit is stored and has no
mint yet. -/
theorem publishes_processTransfer_iff (tx : EthereumTransaction) (t : EthereumTransfer)
    (hm : MintRefs s) (hc : s.counters.isSome = true) :
    (safe.processTransfer tx t).Publishes s ↔ safe.into t = true ∧
      ((∃ e, safe.depositOfTransfer tx t = .err e) ∨
        ∃ d₀, safe.depositOfTransfer tx t = .ok d₀ ∧
          hashProcessed s d₀.ethTxHash.toString = true ∧ d₀.ethTxHash ∉ depositHashes s ∧
          ¬d₀.HasMint safe s) := by
  rw [AuditedSafeConfig.processTransfer_eq, AuditedSafeConfig.into]
  cases hto : (t.toAddr == safe.safeAddr) with
  | false => simp
  | true =>
    cases hd₀ : safe.depositOfTransfer tx t with
    | ok d₀ =>
      have hstore := publishes_storeDeposit_iff safe (depositOfTransfer_valid hto hd₀).1 hm hc
      simpa using hstore
    -- a transfer that cannot be read is always counted
    | err e => simp [Program.publishes_bind, publishes_inc, hc]
    | panic m => simp

/-! ### The transfers before it -/

/-- The nonce that a deposit in a transaction expects. -/
def nonceHexOf (hash : EthTxHash) : String := Hex.encode (mintTxNonceBytes hash)

theorem nonceHexOf_injective : Function.Injective nonceHexOf :=
  Hex.encode_injective.comp mintTxNonceBytes_injective

/-- A match takes the mint of its own nonce. -/
theorem findUnaudited_matchDeposit {d : GnosisSafeDeposit} {r : Except Error MintTx} {hex : String}
    (h : (AuditedMint.tryMatchDepositWithMint d safe).attempt.Returns s r s')
    (hne : hex ≠ d.expectedMcMintTxNonceHex) :
    MintTx.findUnauditedMintTxByNonce hex s' = MintTx.findUnauditedMintTxByNonce hex s := by
  cases r with
  | ok m =>
    obtain ⟨id,-,-,-,hfind,-,ha⟩ :=
      (returns_tryMatch s s' m).mp ((Program.returns_attempt_ok _ s s' m).mp h)
    have hmid : m.id = some (key m) := id_of_find? hfind
    obtain ⟨hmem,hnonce,-⟩ := found_of_find? hfind
    rw [hmid, unwrap_bind] at ha
    obtain ⟨t,n,ht,rfl⟩ := mintLinked_associate ha
    refine List.find?_congr fun x hx => ?_
    by_cases hhex : x.nonceHex = hex
    -- the mint that was matched has the nonce of the deposit, so `x` is another one
    · have hother : some (key m) ≠ x.id := by
        intro he
        have hsame := s.mintTxs.eq_of_id_eq hmem hx (hmid.trans he)
        exact hne (hhex.symm.trans (hsame ▸ hnonce))
      have haudited : MintTx.isAudited { s with auditedMints := t } x = MintTx.isAudited s x := by
        simp [MintTx.isAudited, ht, hother]
      rw [haudited]
    · simp [hhex]
  -- the failed search was rolled back, up to the counters
  | error e =>
    obtain ⟨c,-,rfl⟩ := fails_tryMatch (by intro e; cases e <;> rfl)
      ((Program.returns_attempt_error _ s s' e).mp h)
    rfl

theorem findUnaudited_setDeposits (hex : String) (s : Db) (t : Table GnosisSafeDeposit) :
    MintTx.findUnauditedMintTxByNonce hex { s with gnosisSafeDeposits := t } =
      MintTx.findUnauditedMintTxByNonce hex s := rfl

theorem withId_expectedMcMintTxNonceHex (d : GnosisSafeDeposit) (n : ℕ) :
    (Record.withId d n).expectedMcMintTxNonceHex = d.expectedMcMintTxNonceHex := rfl

theorem findUnaudited_processTransfer {tx : EthereumTransaction} {t : EthereumTransfer}
    {hash : EthTxHash} (h : (safe.processTransfer tx t).Returns s () s')
    (hne : ∀ d₀, safe.depositOfTransfer tx t = .ok d₀ → d₀.ethTxHash ≠ hash) :
    MintTx.findUnauditedMintTxByNonce (nonceHexOf hash) s' =
      MintTx.findUnauditedMintTxByNonce (nonceHexOf hash) s := by
  rcases AuditedSafeConfig.returns_processTransfer_iff.mp h with ⟨-,rfl⟩ | ⟨hto,d₀,hd₀,h⟩
  · rfl
  · simp only [AuditedSafeConfig.storeDeposit, Program.returns_bind, Program.returns_pure] at h
    obtain ⟨d,s₂,hins,r,_,hm,-,rfl⟩ := h
    obtain ⟨-,n,u,-,-,hs₂,hd⟩ := (returns_insertUnsaved _ _ _ _ _ _ _ _).mp hins
    have hnonce : d.expectedMcMintTxNonceHex = nonceHexOf d₀.ethTxHash := by
      rw [hd, withId_expectedMcMintTxNonceHex]
      exact (depositOfTransfer_valid hto hd₀).2.nonce
    -- distinct hashes have distinct nonces
    have hother : nonceHexOf hash ≠ d.expectedMcMintTxNonceHex := fun he =>
      hne d₀ hd₀ (nonceHexOf_injective (hnonce.symm.trans he.symm))
    rw [findUnaudited_matchDeposit hm hother, hs₂, findUnaudited_setDeposits]

section transfers
variable {tx : EthereumTransaction} {t : EthereumTransfer} {ts : List EthereumTransfer} {s₁ : Db}

/-- The transfers into the safe are deposits that can be stored. -/
structure TransfersStored (safe : AuditedSafeConfig) (tx : EthereumTransaction)
    (ts : List EthereumTransfer) (s : Db) : Prop where
  deposits : ∀ t ∈ ts, safe.into t = true → t.Deposits safe
  storable : DepositsStorable s (safe.depositsOf tx ts)

theorem transfersStored_iff : TransfersStored safe tx ts s ↔
    (∀ t ∈ ts, safe.into t = true → t.Deposits safe) ∧
      DepositsStorable s (safe.depositsOf tx ts) :=
  ⟨fun h => ⟨h.deposits,h.storable⟩,fun h => ⟨h.1,h.2⟩⟩

theorem transfers_return_iff (safe : AuditedSafeConfig) (tx : EthereumTransaction)
    (ts : List EthereumTransfer) :
    (∃ s', (Program.forEach ts (safe.processTransfer tx)).Returns s () s') ↔
      TransfersStored safe tx ts s := by
  simp only [transfersStored_iff]
  induction ts generalizing s with
  | nil =>
    exact iff_of_true ⟨s,(Program.returns_forEach_nil _ _ _ _).mpr rfl⟩
      ⟨by simp,storable_nil s (depositHashes_nodup s)⟩
  | cons t ts ih =>
    -- the loop returns when its first turn does and the rest does from there
    have hsplit : (∃ s', (Program.forEach (t :: ts) (safe.processTransfer tx)).Returns s () s') ↔
        ∃ s₁, (safe.processTransfer tx t).Returns s () s₁ ∧
          ∃ s', (Program.forEach ts (safe.processTransfer tx)).Returns s₁ () s' := by
      simp only [Program.returns_forEach_cons]
      rw [exists_comm]
      simp only [exists_and_left]
    rw [hsplit, List.forall_mem_cons]
    cases hinto : safe.into t with
    | false =>
      simp only [processTransfer_out hinto, depositsOf_cons_out hinto, Bool.false_eq_true,
        Program.returns_pure, true_and, exists_eq_left, false_implies]
      exact ih
    | true =>
      simp only [true_implies]
      exact transferInto_step hinto fun s₁ _ => ih

theorem findUnaudited_transfers {hash : EthTxHash}
    (h : (Program.forEach ts (safe.processTransfer tx)).Returns s () s')
    (hnot : hash ∉ (safe.depositsOf tx ts).map GnosisSafeDeposit.ethTxHash) :
    MintTx.findUnauditedMintTxByNonce (nonceHexOf hash) s' =
      MintTx.findUnauditedMintTxByNonce (nonceHexOf hash) s := by
  induction ts generalizing s with
  | nil => rw [(Program.returns_forEach_nil _ _ _ _).mp h]
  | cons t ts ih =>
    obtain ⟨s₁,hone,hrest⟩ := (Program.returns_forEach_cons _ _ _ _ _ _).mp h
    cases hinto : safe.into t with
    | false =>
      rw [processTransfer_out hinto] at hone
      obtain ⟨-,rfl⟩ := (Program.returns_pure _ _ _ _).mp hone
      rw [depositsOf_cons_out hinto] at hnot
      exact ih hrest hnot
    | true =>
      -- the turn stored one deposit, and `hash` is not its hash
      obtain ⟨d₀,hd₀,-⟩ := (processTransfer_returns_iff hinto).mp ⟨s₁,hone⟩
      rw [depositsOf_cons_ok hinto hd₀, List.map_cons, List.mem_cons, not_or] at hnot
      rw [ih hrest hnot.2]
      refine findUnaudited_processTransfer hone fun d hd => ?_
      obtain rfl : d₀ = d := Outcome.ok.inj (hd₀.symm.trans hd)
      exact Ne.symm hnot.1

theorem storable_concat {stored new : List EthTxHash} {hash : EthTxHash} :
    Storable s stored (new ++ [hash]) ↔ Storable s stored new ∧
      hashProcessed s hash.toString = true ∧ hash ∉ stored ++ new := by
  constructor
  · rintro ⟨hp,hn⟩
    rw [← List.append_assoc, List.nodup_append] at hn
    exact ⟨⟨fun x hx => hp x (List.mem_append_left _ hx),hn.1⟩,
      hp hash (List.mem_append_right _ (List.mem_singleton.mpr rfl)),
      fun hmem => hn.2.2 _ hmem _ (List.mem_singleton.mpr rfl) rfl⟩
  · rintro ⟨⟨hp,hn⟩,hhash,hnew⟩
    refine ⟨fun x hx => ?_,?_⟩
    · rcases List.mem_append.mp hx with hx | hx
      · exact hp x hx
      · exact List.mem_singleton.mp hx ▸ hhash
    · rw [← List.append_assoc, ← List.concat_eq_append]
      exact hn.concat hnew

/-- A transfer into the safe that is counted where the transfers before it are stored: it is invalid,
or its deposit is stored and has no mint yet. -/
def CountsTransfer (safe : AuditedSafeConfig) (tx : EthereumTransaction) (s : Db) : Prop :=
  ∃ before t after, tx.transfers = before ++ t :: after ∧ TransfersStored safe tx before s ∧
    safe.into t = true ∧ ((∃ e, safe.depositOfTransfer tx t = .err e) ∨
      ∃ d₀, safe.depositOfTransfer tx t = .ok d₀ ∧
        DepositsStorable s (safe.depositsOf tx before ++ [d₀]) ∧ ¬d₀.HasMint safe s)

/-- After the transfers before it a transfer is counted as it would be without them. -/
theorem publishes_afterTransfers (hi : Intact s) (hc : s.counters.isSome = true)
    (hbefore : (Program.forEach ts (safe.processTransfer tx)).Returns s () s₁) :
    (safe.processTransfer tx t).Publishes s₁ ↔ safe.into t = true ∧
      ((∃ e, safe.depositOfTransfer tx t = .err e) ∨
        ∃ d₀, safe.depositOfTransfer tx t = .ok d₀ ∧
          DepositsStorable s (safe.depositsOf tx ts ++ [d₀]) ∧ ¬d₀.HasMint safe s) := by
  have hkeeps : Program.Within (Keeps Intact) (Program.forEach ts (safe.processTransfer tx)) :=
    Program.leaves_forEach ((gnosisParts_intact safe).processTransfer tx) ts
  have hi₁ : Intact s₁ := hkeeps.returns hbefore hi
  have hrises := gnosisParts_of_quiet Quiet.leaves_rises rises_inc CountsLast.rises safe
  have hc₁ : s₁.counters.isSome = true :=
    isSome_of_rises (Program.leaves_forEach (hrises.processTransfer tx) ts) hbefore hc
  have hadd := (depositsAdded_transfers ts (Or.inl ⟨(),hbefore⟩)).rowsAdded
  -- the transfers before store deposits, and no transaction hash
  have hprocessed (hash : String) : hashProcessed s₁ hash = hashProcessed s hash := by
    rw [hashProcessed, hadd.txs, hashProcessed]
  have hstored : Storable s (depositHashes s)
      ((safe.depositsOf tx ts).map GnosisSafeDeposit.ethTxHash) :=
    ((transfers_return_iff safe tx ts).mp ⟨s₁,hbefore⟩).storable
  rw [publishes_processTransfer_iff tx t hi₁.mints hc₁]
  refine and_congr_right fun hinto => or_congr_right (exists_congr fun d₀ =>
    and_congr_right fun hd₀ => ?_)
  rw [DepositsStorable, List.map_append, List.map_singleton, storable_concat, hprocessed,
    hadd.hashes.1, and_iff_right hstored, and_assoc]
  refine and_congr_right fun _ => and_congr_right fun hnew => not_congr ?_
  have hnonce : d₀.expectedMcMintTxNonceHex = nonceHexOf d₀.ethTxHash :=
    (depositOfTransfer_valid hinto hd₀).2.nonce
  -- the deposits stored before have other hashes, so they took another mint
  rw [GnosisSafeDeposit.HasMint, GnosisSafeDeposit.HasMint, hnonce,
    findUnaudited_transfers hbefore fun hmem => hnew (List.mem_append_right _ hmem)]

theorem publishes_processEthTransaction_iff (hi : Intact s) (hc : s.counters.isSome = true) :
    (safe.processEthTransaction tx).Publishes s ↔ CountsTransfer safe tx s := by
  rw [AuditedSafeConfig.processEthTransaction, Program.publishes_forEach]
  constructor
  · rintro ⟨before,t,after,s₁,hts,hbefore,h⟩
    exact ⟨before,t,after,hts,(transfers_return_iff safe tx before).mp ⟨s₁,hbefore⟩,
      (publishes_afterTransfers hi hc hbefore).mp h⟩
  · rintro ⟨before,t,after,hts,hstored,h⟩
    obtain ⟨s₁,hbefore⟩ := (transfers_return_iff safe tx before).mpr hstored
    exact ⟨before,t,after,s₁,hts,hbefore,(publishes_afterTransfers hi hc hbefore).mpr h⟩

end transfers

/-! ### Raw transactions -/

theorem publishes_processDecoded_ethereum (tx : EthereumTransaction) :
    (safe.processDecoded (.ethereum tx)).Publishes s ↔
      (safe.processEthTransaction tx).Publishes s := by
  rw [AuditedSafeConfig.processDecoded, Program.publishes_bind, Program.publishes_attempt]
  refine or_iff_left ?_
  rintro ⟨r,s₁,-,h⟩
  split at h
  · exact Program.not_publishes_pure _ _ h
  · exact Program.not_publishes_pure _ _ h
  · exact Program.not_publishes_fail _ _ h

/-- What a multi-sig transaction counts is kept. -/
theorem returns_of_publishes_multiSig {tx : MultiSigTransaction} (hc : s.counters.isSome = true)
    (h : (safe.processMultiSigTransaction tx).Publishes s) :
    ∃ s', (safe.processMultiSigTransaction tx).Returns s () s' := by
  rw [AuditedSafeConfig.processMultiSigTransaction_eq] at h ⊢
  cases hsafe : (tx.safe == safe.safeAddr) with
  | false => exact ⟨s,(Program.returns_pure _ _ _ _).mpr ⟨rfl,rfl⟩⟩
  | true =>
    cases hparse : safe.parseWithdrawalWithPubKeyMultiSigTx tx with
    | ok w₀ =>
      have hinsert : ¬w₀.insert.Publishes s := not_publishes_of_quiet (quiet_insertWithdrawal w₀) s
      simp only [hsafe, hparse, ite_true, AuditedSafeConfig.storeWithdrawal,
        Program.publishes_bind, hinsert, false_or] at h ⊢
      -- only the matching publishes, so the withdrawal was stored
      obtain ⟨w,s₁,hw,-⟩ := h
      obtain ⟨x,s',hx⟩ := Program.attempt_returns (s := s₁) (not_panics_matchWithdrawal w safe)
      exact ⟨s',(Program.returns_bind _ _ _ _ _).mpr ⟨w,s₁,hw,
        (Program.returns_bind _ _ _ _ _).mpr
          ⟨x,s',hx,(Program.returns_pure _ _ _ _).mpr ⟨rfl,rfl⟩⟩⟩⟩
    -- what is no withdrawal is counted, and the transaction commits
    | err e =>
      obtain ⟨row,hrow⟩ := Option.isSome_iff_exists.mp hc
      exact ⟨_,(Counters.returns_inc _ _ _ _).mpr ⟨row,hrow,rfl⟩⟩
    | panic m => simp [hsafe, hparse] at h

theorem publishes_processRawTransaction_iff (safe : AuditedSafeConfig) (serde : Serde)
    (tx : RawGnosisTransaction) (s : Db) : (safe.processRawTransaction serde tx).Publishes s ↔
      ∃ hash decoded, tx.txHash = .ok hash ∧ hashProcessed s hash.toString = false ∧
        tx.decode serde = .ok decoded ∧
        (safe.processDecoded decoded).Publishes (recordHash serde tx hash s) := by
  have hinsert : ¬(GnosisSafeTx.insert serde tx).Publishes s :=
    not_publishes_of_quiet (quiet_insertTx serde tx) s
  simp only [AuditedSafeConfig.processRawTransaction, Program.publishes_expect,
    exclusiveTransaction, Program.publishes_savepoint, Program.publishes_bind (Program.attempt _),
    Program.publishes_attempt, hinsert, false_or]
  constructor
  · rintro ⟨r,s₁,hr,h⟩
    cases r with
    | ok v =>
      obtain ⟨hash,hhash,hnew,h₁⟩ :=
        (returns_insertTx serde tx s s₁ v).mp ((Program.returns_attempt_ok _ s s₁ v).mp hr)
      simp only [Program.publishes_bind, Program.not_publishes_ofExcept, Program.returns_ofExcept,
        Outcome.except_mapError_eq_ok, false_or] at h
      obtain ⟨decoded,s₂,⟨hdec,h₂⟩,hp⟩ := h
      -- recording the hash and decoding publish nothing
      subst h₁ h₂
      exact ⟨hash,decoded,hhash,hnew,hdec,hp⟩
    | error e =>
      split at h
      · exact absurd h (Program.not_publishes_pure _ _)
      · exact absurd h (Program.not_publishes_fail _ _)
      · rename_i heq
        simp at heq
  · rintro ⟨hash,decoded,hhash,hnew,hdec,hp⟩
    refine ⟨.ok (),recordHash serde tx hash s,(Program.returns_attempt_ok _ _ _ _).mpr
      ((returns_insertTx serde tx s _ ()).mpr ⟨hash,hhash,hnew,rfl⟩),?_⟩
    simp only [Program.publishes_bind, Program.not_publishes_ofExcept, Program.returns_ofExcept,
      Outcome.except_mapError_eq_ok, false_or]
    exact ⟨decoded,_,⟨hdec,rfl⟩,hp⟩

/-- An Ethereum transaction that is new counts one of its transfers. -/
def CountsTransfers (safe : AuditedSafeConfig) (serde : Serde) (tx : RawGnosisTransaction)
    (s : Db) : Prop :=
  ∃ hash ethTx, tx.txHash = .ok hash ∧ hashProcessed s hash.toString = false ∧
    tx.decode serde = .ok (.ethereum ethTx) ∧
    CountsTransfer safe ethTx (recordHash serde tx hash s)

theorem intact_recordHash (hi : Intact s) (serde : Serde) (tx : RawGnosisTransaction)
    (hash : EthTxHash) : Intact (recordHash serde tx hash s) :=
  hi.grown List.prefix_rfl List.prefix_rfl List.prefix_rfl List.prefix_rfl
    (List.prefix_append _ _) (fun _ hw hnot => absurd hw hnot) rfl rfl

/-- A raw transaction tells the counters exactly if it is processed to the end where it counts a
transfer. -/
theorem tells_processRawTransaction_iff_digestible (safe : AuditedSafeConfig) (serde : Serde)
    (tx : RawGnosisTransaction) (hi : Intact s) (hc : s.counters.isSome = true) :
    (safe.processRawTransaction serde tx).Tells Db.counters s ↔
      (CountsTransfers safe serde tx s → Digestible safe serde s [tx]) := by
  rw [tells_processRawTransaction_iff tx hc]
  constructor
  · rintro h ⟨hash,ethTx,hhash,hnew,hdec,hcount⟩
    refine (processRawTransaction_returns_iff hhash hnew hc).mp (h.resolve_right ?_)
    refine not_not_intro ((publishes_processRawTransaction_iff safe serde tx s).mpr
      ⟨hash,_,hhash,hnew,hdec,?_⟩)
    exact (publishes_processDecoded_ethereum ethTx).mpr
      ((publishes_processEthTransaction_iff (intact_recordHash hi serde tx hash) hc).mpr hcount)
  · intro h
    refine Classical.or_iff_not_imp_right.mpr fun hpublish => ?_
    obtain ⟨hash,decoded,hhash,hnew,hdec,hp⟩ :=
      (publishes_processRawTransaction_iff safe serde tx s).mp (not_not.mp hpublish)
    have hreturns {s' : Db} (hdone : (safe.processDecoded decoded).Returns
        (recordHash serde tx hash s) () s') :
        ∃ s', (safe.processRawTransaction serde tx).Returns s () s' :=
      ⟨s',(returns_processRawTransaction_iff serde tx s s' ()).mpr
        ⟨hash,hhash,Or.inr ⟨hnew,decoded,hdec,hdone⟩⟩⟩
    cases decoded with
    | ethereum ethTx =>
      refine (processRawTransaction_returns_iff hhash hnew hc).mpr
        (h ⟨hash,ethTx,hhash,hnew,hdec,?_⟩)
      exact (publishes_processEthTransaction_iff (intact_recordHash hi serde tx hash) hc).mp
        ((publishes_processDecoded_ethereum ethTx).mp hp)
    -- only ether transactions can count and then be rolled back
    | multiSig multiSigTx =>
      obtain ⟨s',hdone⟩ := returns_of_publishes_multiSig (s := recordHash serde tx hash s) hc hp
      exact hreturns hdone
    | module v => exact hreturns ((Program.returns_pure () () _ _).mpr ⟨rfl,rfl⟩)

end ReserveAuditor
