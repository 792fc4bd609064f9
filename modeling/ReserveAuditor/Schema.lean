import ReserveAuditor.Config
import ReserveAuditor.Lib.Table
import ReserveAuditor.Lib.Trace

/-! The database: rows of its tables (`db/models/*.rs`), the uniqueness constraints of the
schema (`migrations/up.sql`), and computations over a connection (`db/transaction.rs`).
SQLite has no unsigned integers, so `u64` values are cast to `i64` columns and back. Row
ids are unbounded here; the narrowing to `i32` in Diesel is left out. -/
namespace ReserveAuditor
open Txn Relational

/-! ### Rows -/

structure BlockAuditData where
  blockIndex : Int64
deriving DecidableEq

structure BlockBalance where
  blockIndex : Int64
  tokenId : Int64
  balance : Int64
deriving DecidableEq

structure MintConfigTx where
  id : Option ℕ
  blockIndex : Int64
  blockTimestamp : Option DateTime
  tokenId : Int64
  nonceHex : String
  totalMintLimit : Int64
  tombstoneBlock : Int64
  protobuf : Bytes

structure MintConfig where
  id : Option ℕ
  mintConfigTxId : ℕ
  mintLimit : Int64
  protobuf : Bytes

structure MintTx where
  id : Option ℕ
  blockIndex : Int64
  blockTimestamp : Option DateTime
  tokenId : Int64
  amount : Int64
  nonceHex : String
  recipientB58Addr : String
  tombstoneBlock : Int64
  protobuf : Bytes
  mintConfigId : Option ℕ

structure BurnTxOut where
  id : Option ℕ
  blockIndex : Int64
  blockTimestamp : Option DateTime
  tokenId : Int64
  amount : Int64
  publicKeyHex : String
  protobuf : Bytes

structure GnosisSafeTx where
  ethTxHash : String
  rawTxJson : String

structure GnosisSafeDeposit where
  id : Option ℕ
  ethTxHash : EthTxHash
  executionDate : DateTime
  ethTxValue : EthTxValue
  ethBlockNumber : Int64
  safeAddr : EthAddr
  tokenAddr : EthAddr
  fromAddr : EthAddr
  amount : Int64
  expectedMcMintTxNonceHex : String

structure GnosisSafeWithdrawal where
  id : Option ℕ
  ethTxHash : EthTxHash
  executionDate : DateTime
  ethTxValue : EthTxValue
  ethBlockNumber : Int64
  safeAddr : EthAddr
  tokenAddr : EthAddr
  toAddr : EthAddr
  amount : Int64
  mcTxOutPublicKeyHex : String

structure AuditedMint where
  id : Option ℕ
  mintTxId : ℕ
  gnosisSafeDepositId : ℕ

structure AuditedBurn where
  id : Option ℕ
  burnTxOutId : ℕ
  gnosisSafeWithdrawalId : ℕ

/-! ### Getters, back to unsigned values -/

def BlockAuditData.getBlockIndex (r : BlockAuditData) : UInt64 := r.blockIndex.toUInt64

def BlockBalance.getBlockIndex (r : BlockBalance) : UInt64 := r.blockIndex.toUInt64
def BlockBalance.getTokenId (r : BlockBalance) : TokenId := r.tokenId.toUInt64

def MintConfigTx.getBlockIndex (r : MintConfigTx) : UInt64 := r.blockIndex.toUInt64
def MintConfigTx.getTokenId (r : MintConfigTx) : TokenId := r.tokenId.toUInt64
def MintConfigTx.getTotalMintLimit (r : MintConfigTx) : UInt64 := r.totalMintLimit.toUInt64

def MintConfig.getMintLimit (r : MintConfig) : UInt64 := r.mintLimit.toUInt64

def MintTx.getBlockIndex (r : MintTx) : UInt64 := r.blockIndex.toUInt64
def MintTx.getTokenId (r : MintTx) : TokenId := r.tokenId.toUInt64
def MintTx.getAmount (r : MintTx) : UInt64 := r.amount.toUInt64

def BurnTxOut.getBlockIndex (r : BurnTxOut) : UInt64 := r.blockIndex.toUInt64
def BurnTxOut.getTokenId (r : BurnTxOut) : TokenId := r.tokenId.toUInt64
def BurnTxOut.getAmount (r : BurnTxOut) : UInt64 := r.amount.toUInt64

def GnosisSafeDeposit.getEthBlockNumber (r : GnosisSafeDeposit) : UInt64 :=
  r.ethBlockNumber.toUInt64
def GnosisSafeDeposit.getAmount (r : GnosisSafeDeposit) : UInt64 := r.amount.toUInt64

def GnosisSafeWithdrawal.getEthBlockNumber (r : GnosisSafeWithdrawal) : UInt64 :=
  r.ethBlockNumber.toUInt64
def GnosisSafeWithdrawal.getAmount (r : GnosisSafeWithdrawal) : UInt64 := r.amount.toUInt64

/-! ### Uniqueness constraints -/

instance : Record MintConfigTx where
  id := MintConfigTx.id
  withId r n := { r with id := some n }
  clash a b :=
    if a.nonceHex = b.nonceHex then some "mint_config_txs.nonce_hex"
    else if a.blockIndex = b.blockIndex ∧ a.tokenId = b.tokenId then
      some "mint_config_txs.block_index, mint_config_txs.token_id"
    else none
  id_withId _ _ := rfl
  clash_withId _ _ _ := rfl

instance : Record MintConfig where
  id := MintConfig.id
  withId r n := { r with id := some n }
  clash _ _ := none
  id_withId _ _ := rfl
  clash_withId _ _ _ := rfl

instance : Record MintTx where
  id := MintTx.id
  withId r n := { r with id := some n }
  clash a b := if a.nonceHex = b.nonceHex then some "mint_txs.nonce_hex" else none
  id_withId _ _ := rfl
  clash_withId _ _ _ := rfl

instance : Record BurnTxOut where
  id := BurnTxOut.id
  withId r n := { r with id := some n }
  clash a b := if a.publicKeyHex = b.publicKeyHex then some "burn_tx_outs.public_key_hex" else none
  id_withId _ _ := rfl
  clash_withId _ _ _ := rfl

instance : Record GnosisSafeDeposit where
  id := GnosisSafeDeposit.id
  withId r n := { r with id := some n }
  clash a b :=
    if a.ethTxHash.toString = b.ethTxHash.toString then some "gnosis_safe_deposits.eth_tx_hash"
    else none
  id_withId _ _ := rfl
  clash_withId _ _ _ := rfl

instance : Record GnosisSafeWithdrawal where
  id := GnosisSafeWithdrawal.id
  withId r n := { r with id := some n }
  clash a b :=
    if a.ethTxHash.toString = b.ethTxHash.toString then some "gnosis_safe_withdrawals.eth_tx_hash"
    else none
  id_withId _ _ := rfl
  clash_withId _ _ _ := rfl

/-- Neither side of `audited_mints` is declared unique. -/
instance : Record AuditedMint where
  id := AuditedMint.id
  withId r n := { r with id := some n }
  clash _ _ := none
  id_withId _ _ := rfl
  clash_withId _ _ _ := rfl

/-- Neither side of `audited_burns` is declared unique. -/
instance : Record AuditedBurn where
  id := AuditedBurn.id
  withId r n := { r with id := some n }
  clash _ _ := none
  id_withId _ _ := rfl
  clash_withId _ _ _ := rfl

/-! ### Counters and the database -/

/-- The columns of the `counters` table. -/
inductive Counter where
  | numBlocksSynced
  | numBurnsExceedingBalance
  | numMintTxsWithoutMatchingMintConfig
  | numMismatchingMintsAndDeposits
  | numMismatchingBurnsAndWithdrawals
  | numUnknownEthereumTokenDeposits
  | numUnknownEthereumTokenWithdrawals
  | numMintsToUnknownSafe
  | numBurnsFromUnknownSafe
  | numInvalidEthereumTransactions
  | numInvalidMultiSigTransactions
  | numUnexpectedErrorsMatchingDepositsToMints
  | numUnexpectedErrorsMatchingMintsToDeposits
  | numUnexpectedErrorsMatchingWithdrawalsToBurns
  | numUnexpectedErrorsMatchingBurnsToWithdrawals
deriving DecidableEq

/-- Syncing a block of the ledger counts it. -/
def Counter.ofLedger : Counter → Bool
  | .numBlocksSynced | .numBurnsExceedingBalance | .numMintTxsWithoutMatchingMintConfig => true
  | _ => false

/-- A row of the `counters` table. -/
abbrev Counters := Counter → ℕ

/-- The primary key of `counters` is always written as 0, so there is at most one row. -/
structure Db where
  blockAuditData : List BlockAuditData
  blockBalance : List BlockBalance
  mintConfigTxs : Table MintConfigTx
  mintConfigs : Table MintConfig
  mintTxs : Table MintTx
  burnTxOuts : Table BurnTxOut
  gnosisSafeTxs : List GnosisSafeTx
  gnosisSafeDeposits : Table GnosisSafeDeposit
  gnosisSafeWithdrawals : Table GnosisSafeWithdrawal
  auditedMints : Table AuditedMint
  auditedBurns : Table AuditedBurn
  counters : Option Counters

/-- A freshly migrated database. -/
def Db.empty : Db :=
  ⟨[],[],.empty,.empty,.empty,.empty,[],.empty,.empty,.empty,.empty,none⟩

/-! ### Computations over a connection -/

/-- What a function with a `&Conn` argument does; it publishes gauges as a side effect. -/
abbrev Conn (α : Type) := Program Db Counters Error α

def numRetries : ℕ := 5

/-- The attempts of `transaction` that are left. -/
def transactionLoop {α : Type} (f : Conn α) : ℕ → Conn α
  | 0 => Program.ofOutcome (.panic "Should never reach this point.")
  | n+1 => do
    match ← f.savepoint.attempt with
    | .ok r => pure r
    | .error e => if !e.shouldRetry || n == 0 then Program.fail e else transactionLoop f n

/-- Create a SQLite transaction (a savepoint inside another transaction) with retry. -/
def transaction {α : Type} (f : Conn α) : Conn α := transactionLoop f numRetries

/-- `conn.exclusive_transaction` -/
def exclusiveTransaction {α : Type} (f : Conn α) : Conn α := f.savepoint

/-- Retrying does not change how a transaction ends, as each attempt starts from the same
database. What an attempt publishes is published again by the next one. -/
theorem transactionLoop_run {α : Type} (f : Conn α) (n : ℕ) (s : Db) : ∃ k,
    transactionLoop f (n+1) s = ⟨(f.savepoint s).outcome,(f.savepoint s).state,
      (List.replicate (k+1) (f s).log).flatten⟩ ∧ ((f s).outcome.isOk = true → k = 0) := by
  induction n with
  | zero =>
    refine ⟨0,?_,fun _ => rfl⟩
    rcases hf : f s with ⟨o,t,l⟩
    cases o <;> simp [transactionLoop, Program.bind_run, Program.bind, Program.attempt,
      Program.savepoint, hf, Program.fail, pure, Program.pure]
  | succ n ih =>
    obtain ⟨k,hrun,-⟩ := ih
    rw [transactionLoop]
    rcases hf : f s with ⟨o,t,l⟩
    cases o with
    -- only a failure that may be retried gets to the next attempt, from `s` again
    | ok a =>
      refine ⟨0,?_,fun _ => rfl⟩
      simp [Program.bind_run, Program.bind, Program.attempt, Program.savepoint, hf, pure, Program.pure]
    | panic m =>
      refine ⟨0,?_,fun _ => rfl⟩
      simp [Program.bind_run, Program.bind, Program.attempt, Program.savepoint, hf]
    | err e =>
      simp only [Program.savepoint, hf] at hrun
      cases hretry : e.shouldRetry with
      | false =>
        refine ⟨0,?_,fun _ => rfl⟩
        simp [Program.bind_run, Program.bind, Program.attempt, Program.savepoint, hf, hretry,
          Program.fail]
      | true =>
        refine ⟨k+1,?_,fun h => by simp [Outcome.isOk] at h⟩
        simp [Program.bind_run, Program.bind, Program.attempt, Program.savepoint, hf, hretry, hrun,
          List.replicate_succ]

theorem transaction_run {α : Type} (f : Conn α) (s : Db) : ∃ k,
    transaction f s = ⟨(f.savepoint s).outcome,(f.savepoint s).state,
      (List.replicate (k+1) (f s).log).flatten⟩ ∧ ((f s).outcome.isOk = true → k = 0) :=
  transactionLoop_run f 4 s

theorem transaction_outcome {α : Type} (f : Conn α) (s : Db) :
    (transaction f s).outcome = (f.savepoint s).outcome := by
  obtain ⟨k,hrun,-⟩ := transaction_run f s
  rw [hrun]

theorem transaction_state {α : Type} (f : Conn α) (s : Db) :
    (transaction f s).state = (f.savepoint s).state := by
  obtain ⟨k,hrun,-⟩ := transaction_run f s
  rw [hrun]

@[simp] theorem returns_transaction {α : Type} (f : Conn α) (s s' : Db) (a : α) :
    (transaction f).Returns s a s' ↔ f.Returns s a s' := by
  rw [← Program.returns_savepoint f, Program.Returns, Program.Returns, transaction_outcome,
    transaction_state]

@[simp] theorem fails_transaction {α : Type} (f : Conn α) (s s' : Db) (e : Error) :
    (transaction f).Fails s e s' ↔ s' = s ∧ ∃ t, f.Fails s e t := by
  rw [← Program.fails_savepoint f, Program.Fails, Program.Fails, transaction_outcome,
    transaction_state]

@[simp] theorem panics_transaction {α : Type} (f : Conn α) (s : Db) :
    (transaction f).Panics s ↔ f.Panics s := by
  rw [← Program.panics_savepoint f, Program.Panics, Program.Panics, transaction_outcome]

/-- What each attempt leaves, a transaction with its retries leaves. -/
theorem leaves_transaction {α : Type} {P : Db → List Counters → Db → Prop} [IsTrace P] {f : Conn α}
    (hf : Program.Leaves P f) (hback : ∀ s, (f s).outcome.isOk = false → P s (f s).log s) :
    Program.Leaves P (transaction f) := by
  have hloop (n : ℕ) : Program.Leaves P (transactionLoop f n) := by
    induction n with
    | zero => exact Program.leaves_ofOutcome _
    | succ n ih =>
      refine Program.leaves_bind (Program.leaves_attempt (Program.leaves_savepoint hf hback))
        fun r => ?_
      cases r with
      | ok a => exact Program.leaves_pure a
      | error e =>
        simp only
        split
        · exact Program.leaves_fail e
        · exact ih
  exact hloop numRetries

theorem within_transaction {α : Type} {R : Db → Db → Prop} [IsPreorder Db R] {f : Conn α}
    (hf : Program.Within R f) : Program.Within R (transaction f) :=
  leaves_transaction (P := fun s _ s' => R s s') hf fun s _ => refl_of R s

theorem respects_transaction {α : Type} {R : Db → Db → Prop} {f : Conn α}
    (hf : Program.Respects R f) : Program.Respects R (transaction f) := by
  intro s t h
  rw [transaction_outcome, transaction_outcome, transaction_state, transaction_state]
  exact Program.respects_savepoint hf s t h

@[simp] theorem returns_exclusiveTransaction {α : Type} (f : Conn α) (s s' : Db) (a : α) :
    (exclusiveTransaction f).Returns s a s' ↔ f.Returns s a s' := Program.returns_savepoint f s s' a

@[simp] theorem fails_exclusiveTransaction {α : Type} (f : Conn α) (s s' : Db) (e : Error) :
    (exclusiveTransaction f).Fails s e s' ↔ s' = s ∧ ∃ t, f.Fails s e t :=
  Program.fails_savepoint f s s' e

/-! ### Statements -/

/-- `INSERT` into a table with a primary key, under a foreign key condition; the new row id. -/
def insertInto {ρ : Type} [Record ρ] (get : Db → Table ρ) (set : Db → Table ρ → Db)
    (foreignKeys : Db → ρ → Bool) (r : ρ) : Conn ℕ :=
  Program.tryUpdate fun s =>
    match (get s).insert r with
    | .error columns => .error (.ofDiesel (.databaseError .uniqueViolation
        s!"UNIQUE constraint failed: {columns}"))
    | .ok (n,t) =>
      if foreignKeys s r then .ok (n,set s t)
      else .error (.ofDiesel (.databaseError .foreignKeyViolation "FOREIGN KEY constraint failed"))

theorem returns_insertInto {ρ : Type} [Record ρ] (get : Db → Table ρ) (set : Db → Table ρ → Db)
    (fk : Db → ρ → Bool) (r : ρ) (s s' : Db) (n : ℕ) :
    (insertInto get set fk r).Returns s n s' ↔
      ∃ t, (get s).insert r = .ok (n,t) ∧ fk s r = true ∧ s' = set s t := by
  simp only [insertInto, Program.returns_tryUpdate]
  cases h : (get s).insert r with
  | error c => simp
  | ok p =>
    obtain ⟨m,t⟩ := p
    by_cases hf : fk s r = true
    · simp only [hf, ite_true, Except.ok.injEq, Prod.mk.injEq]
      constructor
      · rintro ⟨rfl,rfl⟩
        exact ⟨t,⟨rfl,rfl⟩,trivial,rfl⟩
      · rintro ⟨t',⟨rfl,rfl⟩,-,rfl⟩
        exact ⟨rfl,rfl⟩
    · simp [hf]

theorem fails_insertInto {ρ : Type} [Record ρ] {get : Db → Table ρ} {set : Db → Table ρ → Db}
    {fk : Db → ρ → Bool} {r : ρ} {s s' : Db} {e : Error}
    (h : (insertInto get set fk r).Fails s e s') : s' = s ∧ ∃ err, e = .ofDiesel err := by
  obtain ⟨he,hs⟩ := (Program.fails_tryUpdate _ s s' e).mp h
  refine ⟨hs,?_⟩
  cases hi : (get s).insert r with
  | error c =>
    simp only [hi, Except.error.injEq] at he
    exact ⟨_,he.symm⟩
  | ok p =>
    simp only [hi] at he
    split at he
    · simp at he
    · exact ⟨_,(Except.error.inj he).symm⟩

@[simp] theorem not_panics_insertInto {ρ : Type} [Record ρ] (get : Db → Table ρ)
    (set : Db → Table ρ → Db) (fk : Db → ρ → Bool) (r : ρ) (s : Db) :
    ¬(insertInto get set fk r).Panics s := by
  simp [insertInto]

namespace Counters

/-- Get all counters. -/
def get (s : Db) : Counters := s.counters.getD fun _ => 0

def bump (row : Counters) (c : Counter) : Counters := Function.update row c (row c+1)

/-- Atomically increase a counter and publish all of them (`impl_get_and_inc!`). -/
def inc (c : Counter) : Conn Unit := do
  let row ← Program.query Db.counters
  match row with
  | none => Program.fail .notFound
  | some row => do
    Program.update fun s => { s with counters := some (bump row c) }
    let row ← Program.query get
    Program.publish row

/-- Ensure we have a row in the counters table. -/
def ensureExists : Conn Unit := transaction do
  let row ← Program.query Db.counters
  match row with
  | some _ => pure ()
  | none => Program.update fun s => { s with counters := some fun _ => 0 }

theorem returns_inc (c : Counter) (s s' : Db) (u : Unit) : (inc c).Returns s u s' ↔
    ∃ row, s.counters = some row ∧ s' = { s with counters := some (bump row c) } := by
  simp only [inc, Program.returns_bind, Program.returns_query]
  cases s.counters with
  | none => simp
  | some row => simp

theorem fails_inc (c : Counter) (s s' : Db) (e : Error) : (inc c).Fails s e s' ↔
    s.counters = none ∧ e = .notFound ∧ s' = s := by
  simp only [inc, Program.fails_bind, Program.returns_query, Program.fails_query, false_or]
  cases s.counters with
  | none => simp
  | some row => simp

@[simp] theorem not_panics_inc (c : Counter) (s : Db) : ¬(inc c).Panics s := by
  simp only [inc, Program.panics_bind, Program.not_panics_query, Program.returns_query, false_or]
  rintro ⟨row,_,⟨rfl,rfl⟩,h⟩
  split at h <;> simp at h

@[simp] theorem bump_same (row : Counters) (c : Counter) : row.bump c c = row c+1 := by
  simp [bump]

theorem bump_ne (row : Counters) {c d : Counter} (h : d ≠ c) : row.bump c d = row d := by
  simp [bump, h]

/-- Only the given counters may have changed. -/
def Counts (p : Counter → Bool) (s s' : Db) : Prop :=
  Option.Rel (fun row row' : Counters => ∀ c, p c = false → row' c = row c) s.counters s'.counters

instance (p : Counter → Bool) : IsPreorder Db (Counts p) where
  refl s := by
    unfold Counts
    cases s.counters with
    | none => exact .none
    | some row => exact .some fun _ _ => rfl
  trans s s' s'' h h' := by
    unfold Counts at h h' ⊢
    generalize s.counters = r, s'.counters = r', s''.counters = r'' at h h' ⊢
    cases h with
    | none => exact h'
    | some hrow => cases h' with
      | some hrow' => exact .some fun c hc => (hrow' c hc).trans (hrow c hc)

/-- A write that leaves the counters alone. -/
theorem counts_of_eq {p : Counter → Bool} {s s' : Db} (h : s'.counters = s.counters) :
    Counts p s s' := by
  have hs := refl_of (Counts p) s
  unfold Counts at hs ⊢
  rwa [h]

theorem within_inc {p : Counter → Bool} {c : Counter} (hc : p c = true) :
    Program.Within (Counts p) (inc c) := by
  intro s
  simp only [inc, Program.bind_run, Program.bind, Program.query]
  cases hs : s.counters with
  | none => exact refl_of (Counts p) s
  | some row =>
    change Option.Rel _ s.counters (some (bump row c))
    rw [hs]
    refine .some fun d hd => bump_ne row ?_
    rintro rfl
    simp [hc] at hd

theorem Counts.mono {p q : Counter → Bool} {s s' : Db} (h : Counts p s s')
    (hpq : ∀ c, q c = false → p c = false) : Counts q s s' := by
  unfold Counts at h ⊢
  generalize s.counters = r, s'.counters = r' at h ⊢
  cases h with
  | none => exact .none
  | some hrow => exact .some fun c hc => hrow c (hpq c hc)

theorem Counts.get {p : Counter → Bool} {s s' : Db} (h : Counts p s s') {c : Counter}
    (hc : p c = false) : Counters.get s' c = Counters.get s c := by
  unfold Counts at h
  unfold Counters.get
  generalize s.counters = r, s'.counters = r' at h ⊢
  cases h with
  | none => rfl
  | some hrow => exact hrow c hc

theorem Counts.isSome {p : Counter → Bool} {s s' : Db} (h : Counts p s s') :
    s'.counters.isSome = s.counters.isSome := by
  unfold Counts at h
  generalize s.counters = r, s'.counters = r' at h ⊢
  cases h <;> rfl

/-- Both have the same counts of what syncing a block counts. -/
def SameLedger (c c' : Option Counters) : Prop :=
  ∀ k : Counter, k.ofLedger = true → c'.map (fun row => row k) = c.map (fun row => row k)

theorem SameLedger.refl (c : Option Counters) : SameLedger c c := fun _ _ => rfl

theorem SameLedger.trans {c c' c'' : Option Counters} (h : SameLedger c c')
    (h' : SameLedger c' c'') : SameLedger c c'' := fun k hk => (h' k hk).trans (h k hk)

theorem SameLedger.get {s s' : Db} (h : SameLedger s.counters s'.counters) {c : Counter}
    (hc : c.ofLedger = true) : Counters.get s' c = Counters.get s c := by
  have hk := h c hc
  simp only [Counters.get]
  cases hs : s.counters <;> cases hs' : s'.counters <;> simp_all

theorem SameLedger.bump (row : Counters) {c : Counter} (hc : c.ofLedger = false) :
    SameLedger (some row) (some (row.bump c)) := by
  intro k hk
  have hne : k ≠ c := by
    rintro rfl
    simp [hk] at hc
  simp only [Option.map_some, bump_ne row hne]

end Counters
end ReserveAuditor
