import ReserveAuditor.Backing

/-! No match between a mint and a deposit is lost. Whether the matches depend on the order
in which the data is synced is a question of what the Gnosis transactions with one hash stand
for, since only the first of them to be processed is recorded. -/
namespace ReserveAuditor
open Txn Relational Matching

/-! ### Every match is found -/

variable {config : GnosisSafeConfig} {s s' : Db}

theorem Audited.matched (hi : Audited config s) {m : MintTx} (hm : m ∈ s.mintTxs.rows)
    {d : GnosisSafeDeposit} (hd : d ∈ s.gnosisSafeDeposits.rows) (h : MintMatches config m d) :
    ∃ a ∈ s.auditedMints.rows, m.id = some a.mintTxId ∧ d.id = some a.gnosisSafeDepositId := by
  have hlink := hi.complete m hm (by simp) d hd ((mintSides_fits config m d).mpr h)
  obtain ⟨a,ha,hp⟩ := List.mem_map.mp hlink
  obtain ⟨hl,hr⟩ := Prod.mk.inj hp
  exact ⟨a,ha,hl.symm,hr.symm⟩

/-- The audited pairs of a mint nonce and an Ethereum transaction hash. -/
def auditedPairs (s : Db) : List (String × EthTxHash) :=
  (AuditedMint.withMintAndDeposit s).map fun p => (p.2.1.nonceHex,p.2.2.ethTxHash)

/-- The audited pairs are those of the mints and deposits that match. -/
theorem Audited.mem_auditedPairs (hi : Audited config s) (p : String × EthTxHash) :
    p ∈ auditedPairs s ↔ ∃ m ∈ s.mintTxs.rows, ∃ d ∈ s.gnosisSafeDeposits.rows,
      MintMatches config m d ∧ p = (m.nonceHex,d.ethTxHash) := by
  constructor
  · intro h
    obtain ⟨q,hq,rfl⟩ := List.mem_map.mp h
    obtain ⟨ha,hm,hd⟩ := (mem_withMintAndDeposit s q).mp hq
    obtain ⟨m,hmm,d,hdd,hmid,hdid,hmatch⟩ := hi.mint_row ha
    obtain rfl : m = q.2.1 :=
      Option.some.inj (((Table.find_eq_some _ _ _).mpr ⟨hmm,hmid⟩).symm.trans hm)
    obtain rfl : d = q.2.2 :=
      Option.some.inj (((Table.find_eq_some _ _ _).mpr ⟨hdd,hdid⟩).symm.trans hd)
    -- only matching objects are ever audited together
    exact ⟨_,hmm,_,hdd,hmatch,rfl⟩
  · rintro ⟨m,hm,d,hd,hmatch,rfl⟩
    -- and those that match have been audited
    obtain ⟨a,ha,hmid,hdid⟩ := hi.matched hm hd hmatch
    refine List.mem_map.mpr ⟨(a,m,d),(mem_withMintAndDeposit s _).mpr ⟨ha,?_,?_⟩,rfl⟩
    · exact (Table.find_eq_some _ _ _).mpr ⟨hm,hmid⟩
    · exact (Table.find_eq_some _ _ _).mpr ⟨hd,hdid⟩

/-! ### What a run works through -/

/-- The blocks of the ledger, and the transactions that the Gnosis API returns for a safe. -/
structure ChainData where
  ledger : List BlockData
  gnosis : List (AuditedSafeConfig × RawGnosisTransaction)

/-- The step takes its block or its transaction from the data. -/
def Step.Takes (data : ChainData) : Step config → Prop
  | .ledger b => data.ledger[b.block.index.toNat]? = some b
  | .gnosis safe _ tx => (safe,tx) ∈ data.gnosis

/-- All blocks were synced and all Gnosis transactions were processed. -/
structure ChainData.Synced (data : ChainData) (s : Db) : Prop where
  ledger : Counters.get s .numBlocksSynced = data.ledger.length
  gnosis : ∀ p ∈ data.gnosis, ∃ hash, p.2.txHash = .ok hash ∧ hashProcessed s hash.toString = true

/-- The deposits that a raw transaction stands for. -/
def AuditedSafeConfig.depositsOfRaw (safe : AuditedSafeConfig) (serde : Serde)
    (tx : RawGnosisTransaction) : List GnosisSafeDeposit :=
  match tx.decode serde with
  | .ok decoded => (safe.recordedDeposits decoded).map GnosisSafeDeposit.unsaved
  | .error _ => []

/-- What the matching reads of a deposit. Addresses are read in any letter case. -/
def GnosisSafeDeposit.content (d : GnosisSafeDeposit) : String × Int64 × String × String :=
  (d.expectedMcMintTxNonceHex,d.amount,d.safeAddr.toLowercase,d.tokenAddr.toLowercase)

/-- Transactions with one hash stand for deposits with the same content, whichever safes they
are processed for. -/
def ChainData.Coherent (serde : Serde) (data : ChainData) : Prop :=
  ∀ p ∈ data.gnosis, ∀ q ∈ data.gnosis, ∀ hash, p.2.txHash = .ok hash → q.2.txHash = .ok hash →
    ∀ d ∈ p.1.depositsOfRaw serde p.2, ∃ d' ∈ q.1.depositsOfRaw serde q.2, d'.content = d.content

/-! ### The mints and deposits that a run stores -/

/-- What the matching reads of a mint. -/
def MintTx.content (m : MintTx) : String × Int64 × Int64 := (m.nonceHex,m.tokenId,m.amount)

def CoreMintTx.content (tx : CoreMintTx) : String × Int64 × Int64 :=
  (Hex.encode tx.txPrefix.nonce,tx.txPrefix.tokenId.toInt64,tx.txPrefix.amount.toInt64)

/-- The mints are those of the blocks that were synced, and the deposits those of the
transactions that were processed. -/
structure StoredFrom (serde : Serde) (data : ChainData) (s : Db) : Prop where
  mints : s.mintTxs.rows.map MintTx.content =
    (data.ledger.take (Counters.get s .numBlocksSynced)).flatMap
      fun b => b.contents.mintTxs.map CoreMintTx.content
  deposits : ∀ c, (∃ d ∈ storedDeposits s, d.content = c) ↔
    ∃ p ∈ data.gnosis, ∃ hash, p.2.txHash = .ok hash ∧ hashProcessed s hash.toString = true ∧
      ∃ d ∈ p.1.depositsOfRaw serde p.2, d.content = c

variable {ext : Externals} {serde : Serde} {data : ChainData}

theorem LedgerMoved.storedFrom {b : BlockData} (h : LedgerMoved ext config b s s')
    (hb : data.ledger[b.block.index.toNat]? = some b) (hs : StoredFrom serde data s) :
    StoredFrom serde data s' := by
  obtain ⟨block,s₁,hsynced,⟨t,u,c,hc,rfl⟩,-,-⟩ := h.moved
  have hkept : Counters.get { s₁ with counters := c } .numBlocksSynced =
      Counters.get s₁ .numBlocksSynced := Counters.SameLedger.get hc rfl
  have hcount := hkept.trans hsynced.counted
  constructor
  · change s₁.mintTxs.rows.map MintTx.content = _
    rw [hsynced.mints, List.map_append, hs.mints]
    -- the block's rows hold what the block held
    have hnew : block.mintTxs.map MintTx.content = b.contents.mintTxs.map CoreMintTx.content := by
      refine forall₂_map_eq hsynced.mintsStored fun tx row hst => ?_
      obtain ⟨-,ht,ha,hn,-⟩ := hst.fields
      simp only [MintTx.content, CoreMintTx.content, hn, ht, ha]
    rw [hsynced.index] at hb
    change _ = (data.ledger.take (Counters.get { s₁ with counters := c } _)).flatMap _
    rw [hcount, List.take_add_one, hb, hnew]
    simp
  · intro content
    change (∃ d ∈ s₁.gnosisSafeDeposits.rows.map GnosisSafeDeposit.unsaved, d.content = content) ↔
      ∃ p ∈ data.gnosis, ∃ hash, p.2.txHash = .ok hash ∧ s₁.gnosisSafeTxs.any _ = true ∧ _
    -- a block stores nothing of the safes
    rw [hsynced.gnosis.deposits, hsynced.gnosis.txs]
    exact hs.deposits content

theorem storedFrom_processRawTransaction {safe : AuditedSafeConfig} {tx : RawGnosisTransaction}
    {u : Unit} (hc : data.Coherent serde) (hmem : (safe,tx) ∈ data.gnosis)
    (hs : StoredFrom serde data s) (h : (safe.processRawTransaction serde tx).Returns s u s') :
    StoredFrom serde data s' := by
  obtain ⟨hash,hhash,⟨-,rfl⟩ | ⟨-,decoded,hdec,hproc⟩⟩ := returns_processRawTransaction h
  · exact hs
  have hrows := hproc.rowsAdded
  have hraw : safe.depositsOfRaw serde tx =
      (safe.recordedDeposits decoded).map GnosisSafeDeposit.unsaved := by
    simp only [AuditedSafeConfig.depositsOfRaw, hdec]
  constructor
  · rw [hrows.ledger.mintTxs, hrows.ledger.counters.get rfl]
    exact hs.mints
  · intro content
    -- one more hash is processed now
    have hprocessed (x : EthTxHash) : hashProcessed s' x.toString = true ↔
        hashProcessed s x.toString = true ∨ x = hash := by
      rw [← hashProcessed_recordHash serde tx hash s x, hashProcessed, hrows.txs, hashProcessed]
    simp only [hrows.deposits, ← hraw, List.mem_append]
    constructor
    · rintro ⟨d,hd | hd,hcontent⟩
      · obtain ⟨p,hp,x,hx,hxp,hdp⟩ := (hs.deposits content).mp ⟨d,hd,hcontent⟩
        exact ⟨p,hp,x,hx,(hprocessed x).mpr (Or.inl hxp),hdp⟩
      · exact ⟨(safe,tx),hmem,hash,hhash,(hprocessed hash).mpr (Or.inr rfl),d,hd,hcontent⟩
    · rintro ⟨p,hp,x,hx,hxp,d,hdp,hcontent⟩
      rcases (hprocessed x).mp hxp with hxp | rfl
      -- a hash seen before had stored the same deposits
      · obtain ⟨d',hd',hcontent'⟩ := (hs.deposits content).mpr ⟨p,hp,x,hx,hxp,d,hdp,hcontent⟩
        exact ⟨d',Or.inl hd',hcontent'⟩
      -- the other entry with this hash describes the same deposits, as the data is coherent
      · obtain ⟨d',hd',hcontent'⟩ := hc p hp (safe,tx) hmem x hx hhash d hdp
        exact ⟨d',Or.inr hd',hcontent'.trans hcontent⟩

theorem storedFrom_run (hd : config.Distinct) (hc : data.Coherent serde)
    (steps : List (Step config)) (ht : ∀ step ∈ steps, step.Takes data) :
    StoredFrom serde data (Step.run ext serde steps) := by
  have hinv := run_induction ext serde
    (I := fun s => Audited config s ∧ StoredFrom serde data s) steps
  refine (hinv ⟨audited_initial,?_,?_⟩ ?_).2
  · rfl
  · intro content
    simp [storedDeposits, initialDb_eq, Db.empty, Table.empty, hashProcessed]
  · rintro before step hpre s' ⟨hi,hs⟩ h
    refine ⟨audited_step hd step hi h,?_⟩
    have htakes := ht step (hpre.subset (List.mem_append_right _ (List.mem_singleton.mpr rfl)))
    cases step with
    | ledger b => exact (returns_syncAndAudit hi h).storedFrom htakes hs
    | gnosis safe hsafe tx => exact storedFrom_processRawTransaction hc htakes hs h

/-! ### The order does not matter -/

theorem mintMatches_congr {m m' : MintTx} {d d' : GnosisSafeDeposit} (hm : m.content = m'.content)
    (hd : d.content = d'.content) (h : MintMatches config m d) : MintMatches config m' d' := by
  obtain ⟨hn,ht,ha⟩ : m.nonceHex = m'.nonceHex ∧ m.tokenId = m'.tokenId ∧ m.amount = m'.amount := by
    simpa only [MintTx.content, Prod.mk.injEq] using hm
  obtain ⟨hnonce,hamount,hsafe,htoken⟩ : d.expectedMcMintTxNonceHex = d'.expectedMcMintTxNonceHex ∧
      d.amount = d'.amount ∧ d.safeAddr.toLowercase = d'.safeAddr.toLowercase ∧
      d.tokenAddr.toLowercase = d'.tokenAddr.toLowercase := by
    simpa only [GnosisSafeDeposit.content, Prod.mk.injEq] using hd
  -- the check reads these fields only, and no id
  obtain ⟨h₁,h₂,safe,h₃,token,h₄,h₅⟩ := h
  simp only [MintTx.getAmount, MintTx.getTokenId, GnosisSafeDeposit.getAmount] at h₁ h₂ h₅
  rw [hn, hnonce] at h₁
  rw [ha, hamount] at h₂
  rw [ht] at h₅
  rw [get_safe_config_congr config ((EthAddr.beq_iff _ _).mpr hsafe)] at h₃
  rw [get_token_congr safe ((EthAddr.beq_iff _ _).mpr htoken)] at h₄
  exact ⟨h₁,h₂,safe,h₃,token,h₄,h₅⟩

/-- With mints and deposits of the same content the audited pairs are the same. -/
theorem auditedPairs_subset (hi : Audited config s) (hi' : Audited config s')
    (hm : s.mintTxs.rows.map MintTx.content = s'.mintTxs.rows.map MintTx.content)
    (hd : ∀ d ∈ storedDeposits s, ∃ d' ∈ storedDeposits s', d'.content = d.content)
    {p : String × EthTxHash} (hp : p ∈ auditedPairs s) : p ∈ auditedPairs s' := by
  obtain ⟨m,hmem,d,hdmem,hmatch,rfl⟩ := (hi.mem_auditedPairs p).mp hp
  -- both partners are stored on the other side too, under other ids perhaps
  have hm' : m.content ∈ s'.mintTxs.rows.map MintTx.content := by
    rw [← hm]
    exact List.mem_map_of_mem hmem
  obtain ⟨m',hmem',hmc⟩ := List.mem_map.mp hm'
  obtain ⟨_,hstored,hdc⟩ := hd d.unsaved (List.mem_map_of_mem hdmem)
  obtain ⟨d',hdmem',rfl⟩ := List.mem_map.mp hstored
  change d'.content = d.content at hdc
  refine (hi'.mem_auditedPairs _).mpr
    ⟨m',hmem',d',hdmem',mintMatches_congr hmc.symm hdc.symm hmatch,?_⟩
  have hnonce : m'.nonceHex = m.nonceHex := congrArg Prod.fst hmc
  -- the nonce of a deposit tells its hash
  obtain ⟨safe,-,hvalid⟩ := hi.deposits d hdmem
  obtain ⟨safe',-,hvalid'⟩ := hi'.deposits d' hdmem'
  have hhash : d'.ethTxHash = d.ethTxHash := nonce_injective hvalid' hvalid (congrArg Prod.fst hdc)
  rw [hnonce, hhash]

theorem auditedPairs_of_synced (hi : Audited config s) (hi' : Audited config s')
    (hs : StoredFrom serde data s) (hs' : StoredFrom serde data s') (hf : data.Synced s)
    (hf' : data.Synced s') {p : String × EthTxHash} (hp : p ∈ auditedPairs s) :
    p ∈ auditedPairs s' := by
  refine auditedPairs_subset hi hi' ?_ (fun d hd => ?_) hp
  · rw [hs.mints, hs'.mints, hf.ledger, hf'.ledger]
  · obtain ⟨q,hq,hash,hhash,-,hdq⟩ := (hs.deposits d.content).mp ⟨d,hd,rfl⟩
    obtain ⟨hash',hhash',hprocessed⟩ := hf'.gnosis q hq
    obtain rfl : hash = hash' := by
      rw [hhash] at hhash'
      exact Except.ok.inj hhash'
    exact (hs'.deposits d.content).mpr ⟨q,hq,hash,hhash,hprocessed,hdq⟩

/-- After every interleaving all that matches is matched. Two interleavings that sync the same
data find the same pairs if transactions with one hash stand for the same deposits. -/
theorem run_matches_complete_and_confluent (ext : Externals) (serde : Serde)
    (config : GnosisSafeConfig) (hd : config.Distinct) :
    (∀ steps : List (Step config),
      ∀ m ∈ (Step.run ext serde steps).mintTxs.rows,
      ∀ d ∈ (Step.run ext serde steps).gnosisSafeDeposits.rows,
      ∀ safe, config.getAuditedSafeConfigBySafeAddr d.safeAddr = some safe →
        AuditedMint.verifyMintTxMatchesDeposit m d safe = .ok () →
        ∃ a ∈ (Step.run ext serde steps).auditedMints.rows,
          m.id = some a.mintTxId ∧ d.id = some a.gnosisSafeDepositId) ∧
    (∀ data : ChainData, data.Coherent serde → ∀ steps steps' : List (Step config),
      (∀ step ∈ steps, step.Takes data) → (∀ step ∈ steps', step.Takes data) →
      data.Synced (Step.run ext serde steps) → data.Synced (Step.run ext serde steps') →
      ∀ p, p ∈ auditedPairs (Step.run ext serde steps) ↔
        p ∈ auditedPairs (Step.run ext serde steps')) := by
  constructor
  · intro steps m hm d hdep safe hsafe hverify
    have hi : Audited config (Step.run ext serde steps) := audited_run hd steps
    refine hi.matched hm hdep ((verifyDepositOfMint_eq_ok config m d ()).mp ?_)
    simp only [AuditedMint.verifyDepositOfMint, hsafe, hverify]
  · intro data hc steps steps' ht ht' hf hf' p
    have hi : Audited config (Step.run ext serde steps) := audited_run hd steps
    have hi' : Audited config (Step.run ext serde steps') := audited_run hd steps'
    have hs : StoredFrom serde data (Step.run ext serde steps) := storedFrom_run hd hc steps ht
    have hs' : StoredFrom serde data (Step.run ext serde steps') := storedFrom_run hd hc steps' ht'
    -- each run has audited every pair that belongs together in what it stored
    exact ⟨auditedPairs_of_synced hi hi' hs hs' hf hf',auditedPairs_of_synced hi' hi hs' hs hf' hf⟩

def depositAndMint : ChainData :=
  ⟨[Reference.blockOf 0 [] [Reference.mintFor 0x11 3] []],
    [(Reference.safeA,Reference.depositTx '1' [(Reference.safeAddrA,"3000000000000")])]⟩

def depositFirst : List (Step Reference.config) :=
  [.gnosis Reference.safeA Reference.safeA_configured
      (Reference.depositTx '1' [(Reference.safeAddrA,"3000000000000")]),
    .ledger (Reference.blockOf 0 [] [Reference.mintFor 0x11 3] [])]

theorem depositAndMint_synced {s : Db} (h : Counters.get s .numBlocksSynced = 1 ∧
    hashProcessed s (Reference.hashOf 0x11).toString = true) : depositAndMint.Synced s := by
  refine ⟨h.1,fun p hmem => ⟨Reference.hashOf 0x11,?_,h.2⟩⟩
  rw [List.mem_singleton.mp hmem]
  decide +kernel

theorem depositAndMint_either_order :
    let p := (Hex.encode (mintTxNonceBytes (Reference.hashOf 0x11)),Reference.hashOf 0x11)
    p ∈ auditedPairs (Step.run Reference.externals Reference.serde depositFirst) ↔
      p ∈ auditedPairs (Step.run Reference.externals Reference.serde depositFirst.reverse) := by
  intro p
  have htakes : ∀ step ∈ depositFirst, step.Takes depositAndMint := by
    intro step h
    rcases List.mem_cons.mp h with rfl | h
    · exact List.mem_cons_self
    · rw [List.mem_singleton.mp h]
      rfl
  refine (run_matches_complete_and_confluent Reference.externals Reference.serde Reference.config
    Reference.config_distinct).2 depositAndMint ?_ _ _ htakes
    (fun step h => htakes step (List.mem_reverse.mp h)) (depositAndMint_synced (by decide +kernel))
    (depositAndMint_synced (by decide +kernel)) p
  intro q hq q' hq' _ _ _ d hd
  exact ⟨d,by rwa [List.mem_singleton.mp hq', ← List.mem_singleton.mp hq],rfl⟩

/-! ### One hash, two safes -/

/-- A transaction that deposits 3 into one safe and 5 into the other, and a mint of 5. -/
def sharedHashTx : RawGnosisTransaction :=
  Reference.depositTx '1' [(Reference.safeAddrA,"3000000000000"),(Reference.safeAddrB,"5000000000000")]

def sharedHashBlock : BlockData := Reference.blockOf 0 [] [Reference.mintFor 0x11 5] []

def sharedHashData : ChainData :=
  ⟨[sharedHashBlock],[(Reference.safeA,sharedHashTx),(Reference.safeB,sharedHashTx)]⟩

def sharedHashStepA : Step Reference.config :=
  .gnosis Reference.safeA Reference.safeA_configured sharedHashTx

def sharedHashStepB : Step Reference.config :=
  .gnosis Reference.safeB Reference.safeB_configured sharedHashTx

def sharedHashAFirst : List (Step Reference.config) :=
  [.ledger sharedHashBlock,sharedHashStepA,sharedHashStepB]

def sharedHashBFirst : List (Step Reference.config) :=
  [.ledger sharedHashBlock,sharedHashStepB,sharedHashStepA]

theorem sharedHash_txHash : sharedHashTx.txHash = .ok (Reference.hashOf 0x11) := by
  decide +kernel

theorem sharedHash_synced {s : Db} (hn : Counters.get s .numBlocksSynced = 1)
    (hp : hashProcessed s (Reference.hashOf 0x11).toString = true) : sharedHashData.Synced s := by
  refine ⟨hn,fun p hmem => ⟨_,?_,hp⟩⟩
  have htx : p.2 = sharedHashTx := by
    simp only [sharedHashData, List.mem_cons, List.not_mem_nil, or_false] at hmem
    rcases hmem with rfl | rfl <;> rfl
  rw [htx, sharedHash_txHash]

theorem sharedHash_takes {step : Step Reference.config} (h : step = .ledger sharedHashBlock ∨
    step = sharedHashStepA ∨ step = sharedHashStepB) : step.Takes sharedHashData := by
  rcases h with rfl | rfl | rfl
  · rfl
  · exact List.mem_cons_self
  · exact List.mem_cons_of_mem _ List.mem_cons_self

theorem sharedHashAFirst_run : let s := Step.run Reference.externals Reference.serde sharedHashAFirst
    Counters.get s .numBlocksSynced = 1 ∧ hashProcessed s (Reference.hashOf 0x11).toString = true ∧
      auditedPairs s = [] := by
  decide +kernel

theorem sharedHashBFirst_run : let s := Step.run Reference.externals Reference.serde sharedHashBFirst
    Counters.get s .numBlocksSynced = 1 ∧ hashProcessed s (Reference.hashOf 0x11).toString = true ∧
      auditedPairs s =
        [(Hex.encode (mintTxNonceBytes (Reference.hashOf 0x11)),Reference.hashOf 0x11)] := by
  decide +kernel

/-- Both orders sync the same data. Only one of them finds the deposit that the mint is for. -/
theorem sharedHash_not_confluent :
    Reference.config.Distinct ∧
    (∀ step ∈ sharedHashAFirst, step.Takes sharedHashData) ∧
    (∀ step ∈ sharedHashBFirst, step.Takes sharedHashData) ∧
    sharedHashData.Synced (Step.run Reference.externals Reference.serde sharedHashAFirst) ∧
    sharedHashData.Synced (Step.run Reference.externals Reference.serde sharedHashBFirst) ∧
    auditedPairs (Step.run Reference.externals Reference.serde sharedHashAFirst) ≠
      auditedPairs (Step.run Reference.externals Reference.serde sharedHashBFirst) := by
  obtain ⟨hn,hp,hpairs⟩ := sharedHashAFirst_run
  obtain ⟨hn',hp',hpairs'⟩ := sharedHashBFirst_run
  -- both runs take the same three entries, with the two that share a hash in either order
  refine ⟨Reference.config_distinct,fun step h => sharedHash_takes ?_,
    fun step h => sharedHash_takes ?_,sharedHash_synced hn hp,sharedHash_synced hn' hp',?_⟩
  · simpa only [sharedHashAFirst, List.mem_cons, List.not_mem_nil, or_false] using h
  · simp only [sharedHashBFirst, List.mem_cons, List.not_mem_nil, or_false] at h
    exact h.imp_right Or.symm
  · rw [hpairs, hpairs']
    simp

end ReserveAuditor
