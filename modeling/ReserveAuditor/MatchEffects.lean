import ReserveAuditor.Totality
import ReserveAuditor.Reference

/-! Each matching call has one effect: it records one match, or it increases one counter. -/
namespace ReserveAuditor
open Txn Relational

/-- Run inside of `n` transactions, one in the other. -/
def nested {α : Type} : ℕ → Conn α → Conn α
  | 0, f => f
  | n+1, f => transaction (nested n f)

theorem returns_nested {α : Type} (n : ℕ) (f : Conn α) (s s' : Db) (a : α) :
    (nested n f).Returns s a s' ↔ f.Returns s a s' := by
  induction n with
  | zero => rfl
  | succ n ih => rw [nested, returns_transaction, ih]

/-! ### The counters of the matching calls -/

def AuditedMint.depositErrorCounter : Error → Counter
  | .depositAndMintMismatch _ => .numMismatchingMintsAndDeposits
  | .ethereumTokenNotAudited _ _ _ => .numUnknownEthereumTokenDeposits
  | _ => .numUnexpectedErrorsMatchingDepositsToMints

def AuditedMint.mintErrorCounter : Error → Counter
  | .gnosisSafeNotAudited _ => .numMintsToUnknownSafe
  | .depositAndMintMismatch _ => .numMismatchingMintsAndDeposits
  | .ethereumTokenNotAudited _ _ _ => .numUnknownEthereumTokenDeposits
  | _ => .numUnexpectedErrorsMatchingMintsToDeposits

def AuditedBurn.withdrawalErrorCounter : Error → Counter
  | .withdrawalAndBurnMismatch _ => .numMismatchingBurnsAndWithdrawals
  | .ethereumTokenNotAudited _ _ _ => .numUnknownEthereumTokenWithdrawals
  | _ => .numUnexpectedErrorsMatchingWithdrawalsToBurns

def AuditedBurn.burnErrorCounter : Error → Counter
  | .gnosisSafeNotAudited _ => .numBurnsFromUnknownSafe
  | .withdrawalAndBurnMismatch _ => .numMismatchingBurnsAndWithdrawals
  | .ethereumTokenNotAudited _ _ _ => .numUnknownEthereumTokenWithdrawals
  | _ => .numUnexpectedErrorsMatchingBurnsToWithdrawals

/-! ### The effect of a call -/

/-- One row was added to `audited_mints`, and nothing else was changed. -/
def MintLinked (mintTxId gnosisSafeDepositId : ℕ) (s s' : Db) : Prop :=
  ∃ t n, t.rows = s.auditedMints.rows ++ [⟨some n,mintTxId,gnosisSafeDepositId⟩] ∧
    s' = { s with auditedMints := t }

/-- One row was added to `audited_burns`, and nothing else was changed. -/
def BurnLinked (burnTxOutId gnosisSafeWithdrawalId : ℕ) (s s' : Db) : Prop :=
  ∃ t n, t.rows = s.auditedBurns.rows ++ [⟨some n,burnTxOutId,gnosisSafeWithdrawalId⟩] ∧
    s' = { s with auditedBurns := t }

/-- The call linked its argument with the object that it returned, or it failed and increased the
counter of its error by one. -/
inductive MatchEffect {β : Type} [Record β] (objectId : Option ℕ) (linked : ℕ → ℕ → Db → Db → Prop)
    (counter : Error → Counter) (s : Db) : Except Error β → Db → Prop where
  | linked {id n : ℕ} {other : β} {s' : Db} (hid : objectId = some id)
      (hother : Record.id other = some n) (hlinked : linked id n s s') :
      MatchEffect objectId linked counter s (.ok other) s'
  | counted {row : Counters} {e : Error} (hrow : s.counters = some row) :
      MatchEffect objectId linked counter s (.error e)
        { s with counters := some (row.bump (counter e)) }

/-- The call ends with its effect, alone and inside of any number of transactions. -/
def OneEffect {β : Type} [Record β] (call : Conn β) (objectId : Option ℕ)
    (linked : ℕ → ℕ → Db → Db → Prop) (counter : Error → Counter) (s : Db) : Prop :=
  ∃ r s', MatchEffect objectId linked counter s r s' ∧
    ∀ n, (nested n call.attempt).Returns s r s'

section tryMatch
variable {β : Type} [Record β] {objectId : Option ℕ} {precheck : Except Error Unit}
  {existing : ℕ → Db → Option String} {onExisting : Conn Unit} {find : Db → Option β}
  {check : β → Except Error Unit} {countError : Error → Counter}
  {linked : ℕ → ℕ → Db → Db → Prop} {s : Db}

/-- The object that is found was stored, and it is linked under the key that it was stored with. -/
theorem oneEffect_tryMatch {message : String} {f : ℕ → ℕ → Conn Unit}
    (hc : s.counters.isSome = true)
    (hpanic : ¬(tryMatch objectId precheck existing onExisting find check
      (fun id b => do
        let n ← Program.ofOutcome (.unwrap message (Record.id b))
        f id n) countError).Panics s)
    (hkey : ∀ b, find s = some b → Record.id b = some (key b))
    (hlink : ∀ id n s', (f id n).Returns s () s' → linked id n s s') :
    OneEffect (tryMatch objectId precheck existing onExisting find check
      (fun id b => do
        let n ← Program.ofOutcome (.unwrap message (Record.id b))
        f id n) countError) objectId linked countError s := by
  obtain ⟨r,s',hr⟩ := Program.attempt_returns hpanic
  refine ⟨r,s',?_,fun n => (returns_nested n _ s s' r).mpr hr⟩
  cases r with
  | ok b =>
    obtain ⟨id,hid,-,-,hf,-,ha⟩ :=
      (returns_tryMatch s s' b).mp ((Program.returns_attempt_ok _ s s' b).mp hr)
    rw [hkey b hf, unwrap_bind] at ha
    -- the partner that was found has an id, so the `unwrap` goes through
    exact .linked hid (hkey b hf) (hlink id (key b) s' ha)
  | error e =>
    -- the failure was rolled back and counted, as the row of counters exists
    rcases fails_tryMatch_inc ((Program.returns_attempt_error _ s s' e).mp hr) with ⟨hnone,-⟩ | hinc
    · simp [hnone] at hc
    · obtain ⟨row,hrow,rfl⟩ := (Counters.returns_inc _ _ _ _).mp hinc
      exact .counted hrow

end tryMatch

variable {s s' : Db}

theorem mintLinked_associate {depositId mintId : ℕ}
    (h : (AuditedMint.associateDepositWithMint depositId mintId).Returns s () s') :
    MintLinked mintId depositId s s' := by
  simp only [AuditedMint.associateDepositWithMint, Program.returns_bind, returns_insertInto,
    Table.insert_eq_ok, Program.returns_pure] at h
  obtain ⟨n,_,⟨t,⟨-,-,ht⟩,-,rfl⟩,-,rfl⟩ := h
  exact ⟨t,n,ht,rfl⟩

theorem burnLinked_associate {withdrawalId burnId : ℕ}
    (h : (AuditedBurn.associateWithdrawalWithBurn withdrawalId burnId).Returns s () s') :
    BurnLinked burnId withdrawalId s s' := by
  simp only [AuditedBurn.associateWithdrawalWithBurn, Program.returns_bind, returns_insertInto,
    Table.insert_eq_ok, Program.returns_pure] at h
  obtain ⟨n,_,⟨t,⟨-,-,ht⟩,-,rfl⟩,-,rfl⟩ := h
  exact ⟨t,n,ht,rfl⟩

theorem oneEffect_matchDeposit (d : GnosisSafeDeposit) (safe : AuditedSafeConfig)
    (hc : s.counters.isSome = true) :
    OneEffect (AuditedMint.tryMatchDepositWithMint d safe) d.id
      (fun depositId mintId => MintLinked mintId depositId) AuditedMint.depositErrorCounter s :=
  oneEffect_tryMatch hc (not_panics_matchDeposit d safe) (fun _ hf => id_of_find? hf)
    fun _ _ _ h => mintLinked_associate h

theorem oneEffect_matchMint (m : MintTx) (config : GnosisSafeConfig)
    (hc : s.counters.isSome = true) :
    OneEffect (AuditedMint.tryMatchMintWithDeposit m config) m.id MintLinked
      AuditedMint.mintErrorCounter s :=
  oneEffect_tryMatch (f := fun id n => AuditedMint.associateDepositWithMint n id) hc
    (not_panics_matchMint m config) (fun _ hf => id_of_find? hf)
    fun _ _ _ h => mintLinked_associate h

theorem oneEffect_matchWithdrawal (w : GnosisSafeWithdrawal) (safe : AuditedSafeConfig)
    (hc : s.counters.isSome = true) :
    OneEffect (AuditedBurn.tryMatchWithdrawalWithBurn w safe) w.id
      (fun withdrawalId burnId => BurnLinked burnId withdrawalId)
      AuditedBurn.withdrawalErrorCounter s :=
  oneEffect_tryMatch hc (not_panics_matchWithdrawal w safe) (fun _ hf => id_of_find? hf)
    fun _ _ _ h => burnLinked_associate h

theorem oneEffect_matchBurn (b : BurnTxOut) (config : GnosisSafeConfig)
    (hc : s.counters.isSome = true) :
    OneEffect (AuditedBurn.tryMatchBurnWithWithdrawal b config) b.id BurnLinked
      AuditedBurn.burnErrorCounter s :=
  oneEffect_tryMatch (f := fun id n => AuditedBurn.associateWithdrawalWithBurn n id) hc
    (not_panics_matchBurn b config) (fun _ hf => id_of_find? hf)
    fun _ _ _ h => burnLinked_associate h

/-- Where there is a row of counters, each of the four matching calls ends with its one effect, on
every argument, alone and inside of other transactions. -/
theorem matching_calls_one_effect (s : Db) (hc : s.counters.isSome = true) :
    (∀ (d : GnosisSafeDeposit) (safe : AuditedSafeConfig),
      OneEffect (AuditedMint.tryMatchDepositWithMint d safe) d.id
        (fun depositId mintId => MintLinked mintId depositId)
        AuditedMint.depositErrorCounter s) ∧
    (∀ (m : MintTx) (config : GnosisSafeConfig),
      OneEffect (AuditedMint.tryMatchMintWithDeposit m config) m.id MintLinked
        AuditedMint.mintErrorCounter s) ∧
    (∀ (w : GnosisSafeWithdrawal) (safe : AuditedSafeConfig),
      OneEffect (AuditedBurn.tryMatchWithdrawalWithBurn w safe) w.id
        (fun withdrawalId burnId => BurnLinked burnId withdrawalId)
        AuditedBurn.withdrawalErrorCounter s) ∧
    ∀ (b : BurnTxOut) (config : GnosisSafeConfig),
      OneEffect (AuditedBurn.tryMatchBurnWithWithdrawal b config) b.id BurnLinked
        AuditedBurn.burnErrorCounter s :=
  ⟨fun d safe => oneEffect_matchDeposit d safe hc,fun m config => oneEffect_matchMint m config hc,
    fun w safe => oneEffect_matchWithdrawal w safe hc,
    fun b config => oneEffect_matchBurn b config hc⟩

/-- A deposit that was not stored. -/
def unsavedDeposit : GnosisSafeDeposit := .new none (Reference.hashOf 0x11) 0 3000000000000 100
  Reference.safeAddrA Reference.tokenAddr Reference.userAddr 3

/-- The deposit was stored, and its mint was synced after it but not audited. -/
def mintAfterDeposit : Db :=
  let deposited := (Reference.safeA.processRawTransaction Reference.serde
    (Reference.depositTx '1' [(Reference.safeAddrA,"3000000000000")]) initialDb).state
  let b := Reference.blockOf 0 [] [Reference.mintFor 0x11 3] []
  (syncBlockWithConn Reference.externals b.block b.contents b.timestamp deposited).state

/-- Without an id the call only counts an error; the stored deposit is linked with the mint. -/
theorem deposit_one_effect :
    OneEffect (AuditedMint.tryMatchDepositWithMint unsavedDeposit Reference.safeA) none
      (fun depositId mintId => MintLinked mintId depositId) AuditedMint.depositErrorCounter
      initialDb ∧
    ∃ m mintId s', Record.id m = some mintId ∧ MintLinked mintId 1 mintAfterDeposit s' ∧
      ∀ n, (nested n (AuditedMint.tryMatchDepositWithMint { unsavedDeposit with id := some 1 }
        Reference.safeA).attempt).Returns mintAfterDeposit (.ok m) s' := by
  refine ⟨(matching_calls_one_effect initialDb rfl).1 unsavedDeposit Reference.safeA,?_⟩
  obtain ⟨r,s',heffect,hreturns⟩ := (matching_calls_one_effect mintAfterDeposit
    (by decide +kernel)).1 { unsavedDeposit with id := some 1 } Reference.safeA
  have hok : (AuditedMint.tryMatchDepositWithMint { unsavedDeposit with id := some 1 }
      Reference.safeA mintAfterDeposit).outcome.isOk = true := by
    decide +kernel
  cases heffect with
  | @linked id mintId m s' hid hother hlinked =>
    obtain rfl : 1 = id := Option.some.inj hid
    exact ⟨m,mintId,s',hother,hlinked,hreturns⟩
  | @counted row e hrow =>
    have hfails := (Program.returns_attempt_error _ _ _ e).mp (hreturns 0)
    rw [hfails.1] at hok
    exact absurd hok (by simp [Outcome.isOk])

end ReserveAuditor
