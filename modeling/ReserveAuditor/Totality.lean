import ReserveAuditor.Interleaving

/-! Matching, auditing and syncing a block never panic, and the audit of a block always
returns: how the matching goes does not decide whether a block is kept. -/
namespace ReserveAuditor
open Txn Relational

section tryMatch
variable {β : Type} {objectId : Option ℕ} {precheck : Except Error Unit}
  {existing : ℕ → Db → Option String} {onExisting : Conn Unit} {find : Db → Option β}
  {check : β → Except Error Unit} {associate : ℕ → β → Conn Unit} {countError : Error → Counter}

theorem not_panics_tryMatch {s : Db} (hexisting : ¬onExisting.Panics s)
    (hassociate : ∀ id b, find s = some b → ¬(associate id b).Panics s) :
    ¬(tryMatch objectId precheck existing onExisting find check associate countError).Panics s := by
  rw [tryMatch, Program.panics_bind, Program.panics_attempt]
  rintro (hbody | ⟨r,t,-,h⟩)
  · simp only [Program.panics_bind, Program.panics_ofOutcome, Program.returns_ofOutcome,
      Program.not_panics_ofExcept, Program.returns_ofExcept, panics_transaction,
      Program.not_panics_query, Program.returns_query, false_or] at hbody
    rcases hbody with ⟨m,hm⟩ | ⟨id,s₁,⟨-,h₁⟩,_,s₂,⟨-,h₂⟩,found,s₃,⟨-,h₃⟩,h⟩
    -- an object without an id is an error, not a panic
    · cases objectId <;> simp [Outcome.okOr] at hm
    · subst s₁ s₂ s₃
      split at h
      · simp only [Program.panics_bind, Program.not_panics_fail, and_false, exists_false,
          or_false] at h
        exact hexisting h
      · simp only [Program.panics_bind, Program.not_panics_query, Program.returns_query,
          Program.panics_ofOutcome, Program.returns_ofOutcome, Outcome.okOr_eq_ok,
          Program.not_panics_ofExcept, Program.returns_ofExcept, Program.not_panics_pure,
          and_false, exists_false, or_false, false_or] at h
        obtain ⟨o,s₁,⟨ho,h₁⟩,⟨m,hm⟩ | ⟨b,s₂,⟨hb,h₂⟩,_,s₃,⟨-,h₃⟩,ha⟩⟩ := h
        · cases o <;> simp [Outcome.okOr] at hm
        -- all steps before `associate` read only, so it runs on the partner found in `s`
        · subst s₁ s₂ s₃
          exact hassociate id b (ho.symm.trans hb) ha
  · cases r <;> simp at h

end tryMatch

variable {s : Db}

theorem not_panics_matchDeposit (d : GnosisSafeDeposit) (safe : AuditedSafeConfig) :
    ¬(AuditedMint.tryMatchDepositWithMint d safe).Panics s := by
  refine not_panics_tryMatch (Counters.not_panics_inc _ s) fun id m hm => ?_
  have hid : m.id = some (key m) := id_of_find? hm
  simp [hid, Outcome.unwrap, AuditedMint.associateDepositWithMint]

theorem not_panics_matchMint (m : MintTx) (config : GnosisSafeConfig) :
    ¬(AuditedMint.tryMatchMintWithDeposit m config).Panics s := by
  refine not_panics_tryMatch (Program.not_panics_pure () s) fun id d hd => ?_
  have hid : d.id = some (key d) := id_of_find? hd
  simp [hid, Outcome.unwrap, AuditedMint.associateDepositWithMint]

theorem not_panics_matchWithdrawal (w : GnosisSafeWithdrawal) (safe : AuditedSafeConfig) :
    ¬(AuditedBurn.tryMatchWithdrawalWithBurn w safe).Panics s := by
  refine not_panics_tryMatch (Program.not_panics_pure () s) fun id b hb => ?_
  have hid : b.id = some (key b) := id_of_find? hb
  simp [hid, Outcome.unwrap, AuditedBurn.associateWithdrawalWithBurn]

theorem not_panics_matchBurn (b : BurnTxOut) (config : GnosisSafeConfig) :
    ¬(AuditedBurn.tryMatchBurnWithWithdrawal b config).Panics s := by
  refine not_panics_tryMatch (Program.not_panics_pure () s) fun id w hw => ?_
  have hid : w.id = some (key w) := id_of_find? hw
  simp [hid, Outcome.unwrap, AuditedBurn.associateWithdrawalWithBurn]

/-! ### The audit of a block -/

/-- A loop of attempts returns. -/
theorem returns_attempts {α β : Type} {f : α → Conn β} (hf : ∀ a s, ¬(f a).Panics s) (as : List α)
    (s : Db) : ∃ s', (Program.forEach as fun a => do
      let _ ← Program.attempt (f a)
      pure ()).Returns s () s' := by
  induction as generalizing s with
  | nil => exact ⟨s,(Program.returns_forEach_nil _ s s ()).mpr rfl⟩
  | cons a as ih =>
    obtain ⟨r,s₁,hr⟩ := Program.attempt_returns (hf a s)
    obtain ⟨s',hs'⟩ := ih s₁
    refine ⟨s',(Program.returns_forEach_cons _ _ _ _ _ _).mpr ⟨s₁,?_,hs'⟩⟩
    exact (Program.returns_bind _ _ _ _ _).mpr ⟨r,s₁,hr,(Program.returns_pure _ _ _ _).mpr ⟨rfl,rfl⟩⟩

/-- Whatever there is to match with, the audit of a block returns. -/
theorem returns_auditIfConfigured (config : Option GnosisSafeConfig) (data : SyncBlockData)
    (s : Db) : ∃ s', (auditIfConfigured config data).Returns s () s' := by
  cases config with
  | none => exact ⟨s,(Program.returns_pure _ _ _ _).mpr ⟨rfl,rfl⟩⟩
  | some config =>
    obtain ⟨s₁,h₁⟩ := returns_attempts (fun m s => not_panics_matchMint m config) data.mintTxs s
    obtain ⟨s',h'⟩ := returns_attempts (fun b s => not_panics_matchBurn b config) data.burnTxOuts s₁
    exact ⟨s',(Program.returns_bind _ _ _ _ _).mpr ⟨(),s₁,h₁,h'⟩⟩

/-- A block that can be synced is synced and audited. -/
theorem syncAndAudit_returns_iff (ext : Externals) (config : Option GnosisSafeConfig)
    (b : BlockData) (s : Db) : (∃ s', (syncAndAudit ext config b).Returns s () s') ↔
      ∃ data s', (syncBlockWithConn ext b.block b.contents b.timestamp).Returns s data s' := by
  simp only [syncAndAudit, returns_exclusiveTransaction, Program.returns_bind]
  constructor
  · rintro ⟨s',data,s₁,hsync,-⟩
    exact ⟨data,s₁,hsync⟩
  · rintro ⟨data,s₁,hsync⟩
    obtain ⟨s',hs'⟩ := returns_auditIfConfigured config data s₁
    exact ⟨s',data,s₁,hsync,hs'⟩

/-! ### Syncing a block -/

theorem not_panics_insertUnsaved {ρ : Type} [Record ρ] (what : String) (get : Db → Table ρ)
    (set : Db → Table ρ → Db) (fk : Db → ρ → Bool) (r : ρ) (s : Db) :
    ¬(insertUnsaved what get set fk r).Panics s := by
  unfold insertUnsaved
  split <;> simp

theorem not_panics_insertConfigTx (ext : Externals) (idx : UInt64) (ts : Option DateTime)
    (tx : CoreMintConfigTx) (s : Db) :
    ¬(MintConfigTx.insertFromCoreMintConfigTx ext idx ts tx).Panics s := by
  have hconfigs (id : ℕ) (cs : List CoreMintConfig) (s : Db) :
      ¬(Program.forEach cs fun config => do
        let _ ← MintConfig.insertFromCoreMintConfig ext id config
        pure () : Conn Unit).Panics s :=
    Program.not_panics_forEach cs (fun c s => by
      simp [MintConfig.insertFromCoreMintConfig, MintConfig.insert]) s
  simp [MintConfigTx.insertFromCoreMintConfigTx, MintConfigTx.insert, hconfigs]

theorem not_panics_syncBlockWithConn (ext : Externals) (b : BlockData) (s : Db) :
    ¬(syncBlockWithConn ext b.block b.contents b.timestamp).Panics s := by
  have hconfigs := Program.not_panics_forEach b.contents.validatedMintConfigTxs
    (f := fun tx => do
      let _ ← MintConfigTx.insertFromCoreMintConfigTx ext b.block.index b.timestamp tx
      pure ()) fun tx s => by simp [not_panics_insertConfigTx]
  have hmints := Program.not_panics_accumEach b.contents.mintTxs
    (f := processMint ext b.block.index b.timestamp) fun m tx s => by
      simp [processMint, MintTx.insertFromCoreMintTx, MintTx.insert, not_panics_insertUnsaved]
  have hburns (burns : List BurnTxOut) := Program.not_panics_accumEach burns (f := processBurn)
    fun m burn s => by simp [processBurn, BurnTxOut.insert, not_panics_insertUnsaved]
  have hbalances (m : BalanceMap) := Program.not_panics_forEach m.entries
    (f := fun e => BlockBalance.insert (.new b.block.index e.1 e.2)) fun e s => by
      simp [BlockBalance.insert]
  -- the steps between the loops are inserts and updates, none of which unwraps
  simp [syncBlockWithConn, hconfigs, hmints, hburns, BlockAuditData.set,
    BlockBalance.setBalancesForBlock, hbalances]

/-- A block that is not synced is refused with an error, and no table is changed. -/
theorem syncBlockWithConn_fails {ext : Externals} {b : BlockData} {s : Db}
    (h : ¬∃ data s', (syncBlockWithConn ext b.block b.contents b.timestamp).Returns s data s') :
    ∃ e, (syncBlockWithConn ext b.block b.contents b.timestamp).Fails s e s := by
  rcases Program.returns_or_fails_or_panics
    (syncBlockWithConn ext b.block b.contents b.timestamp) s with ⟨data,hr⟩ | ⟨e,he⟩ | hp
  · exact (h ⟨data,_,hr⟩).elim
  · have hs := ((fails_transaction _ s _ e).mp he).1
    exact ⟨e,he.1,hs⟩
  · exact (not_panics_syncBlockWithConn ext b s hp).elim

end ReserveAuditor
