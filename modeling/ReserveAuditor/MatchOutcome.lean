import ReserveAuditor.PublishedCounters

/-! When a matching call finds its match. -/
namespace ReserveAuditor
open Txn Relational

variable {s s' : Db}

/-- The object is stored and not matched yet, and there is one of the other side that is found for it
and passes the check. -/
structure Matchable {α β : Type} [Record α] (table : Table α) (audited : Bool) (a : α)
    (found : Option β) (check : β → Except Error Unit) : Prop where
  stored : ∃ id, Record.id a = some id ∧ (table.find id).isSome = true
  free : audited = false
  partner : ∃ b, found = some b ∧ check b = .ok ()

def GnosisSafeDeposit.Matchable (d : GnosisSafeDeposit) (safe : AuditedSafeConfig) (s : Db) : Prop :=
  ReserveAuditor.Matchable s.gnosisSafeDeposits (GnosisSafeDeposit.isAudited s d) d
    (MintTx.findUnauditedMintTxByNonce d.expectedMcMintTxNonceHex s)
    fun m => AuditedMint.verifyMintTxMatchesDeposit m d safe

def MintTx.Matchable (m : MintTx) (config : GnosisSafeConfig) (s : Db) : Prop :=
  ReserveAuditor.Matchable s.mintTxs (MintTx.isAudited s m) m
    (GnosisSafeDeposit.findUnauditedDepositByNonce m.nonceHex s)
    (AuditedMint.verifyDepositOfMint m config)

def GnosisSafeWithdrawal.Matchable (w : GnosisSafeWithdrawal) (safe : AuditedSafeConfig) (s : Db) :
    Prop :=
  ReserveAuditor.Matchable s.gnosisSafeWithdrawals (GnosisSafeWithdrawal.isAudited s w) w
    (BurnTxOut.findUnauditedBurnTxOutByPublicKey w.mcTxOutPublicKeyHex s)
    fun b => AuditedBurn.verifyBurnTxOutMatchesWithdrawal b w safe

def BurnTxOut.Matchable (b : BurnTxOut) (config : GnosisSafeConfig) (s : Db) : Prop :=
  ReserveAuditor.Matchable s.burnTxOuts (BurnTxOut.isAudited s b) b
    (GnosisSafeWithdrawal.findUnauditedWithdrawalByPublicKey b.publicKeyHex s)
    (AuditedBurn.verifyWithdrawalOfBurn b config)

/-! ### Recording a match -/

/-- The audit table has no constraint but that both sides are stored. -/
theorem associateMint_returns_iff (depositId mintId : ℕ) :
    (∃ s', (AuditedMint.associateDepositWithMint depositId mintId).Returns s () s') ↔
      (s.mintTxs.find mintId).isSome = true ∧ (s.gnosisSafeDeposits.find depositId).isSome = true := by
  simp only [AuditedMint.associateDepositWithMint, Program.returns_bind, returns_insertInto,
    Program.returns_pure, Bool.and_eq_true]
  constructor
  · rintro ⟨_,_,_,⟨_,-,hrefs,-⟩,-⟩
    exact hrefs
  · intro hrefs
    obtain ⟨t,ht,-⟩ := s.auditedMints.insert_returns (r := ⟨none,mintId,depositId⟩) fun _ _ => rfl
    exact ⟨_,_,_,⟨t,ht,hrefs,rfl⟩,trivial,rfl⟩

theorem associateBurn_returns_iff (withdrawalId burnId : ℕ) :
    (∃ s', (AuditedBurn.associateWithdrawalWithBurn withdrawalId burnId).Returns s () s') ↔
      (s.burnTxOuts.find burnId).isSome = true ∧
      (s.gnosisSafeWithdrawals.find withdrawalId).isSome = true := by
  simp only [AuditedBurn.associateWithdrawalWithBurn, Program.returns_bind, returns_insertInto,
    Program.returns_pure, Bool.and_eq_true]
  constructor
  · rintro ⟨_,_,_,⟨_,-,hrefs,-⟩,-⟩
    exact hrefs
  · intro hrefs
    obtain ⟨t,ht,-⟩ := s.auditedBurns.insert_returns (r := ⟨none,burnId,withdrawalId⟩) fun _ _ => rfl
    exact ⟨_,_,_,⟨t,ht,hrefs,rfl⟩,trivial,rfl⟩

theorem find_key_isSome {ρ : Type} [Record ρ] {t : Table ρ} {p : ρ → Bool} {r : ρ}
    (h : t.rows.find? p = some r) : (t.find (key r)).isSome = true :=
  Option.isSome_of_eq_some ((Table.find_eq_some _ _ _).mpr
    ⟨List.mem_of_find?_eq_some h,id_of_find? h⟩)

section tryMatch
variable {α β : Type} [Record α] {a : α} {table : Table α} {audited : Bool}
  {precheck : Except Error Unit} {existing : ℕ → Db → Option String} {onExisting : Conn Unit}
  {find : Db → Option β} {check : β → Except Error Unit} {associate : ℕ → β → Conn Unit}
  {countError : Error → Counter}

/-- A call finds its match exactly if there is one. -/
theorem tryMatch_returns_iff (hprecheck : ∀ b, check b = .ok () → precheck = .ok ())
    (hexisting : ∀ id, Record.id a = some id → (existing id s = none ↔ audited = false))
    (hassociate : ∀ id b, find s = some b →
      ((∃ s', (associate id b).Returns s () s') ↔ (table.find id).isSome = true)) :
    (∃ b s', (tryMatch (Record.id a) precheck existing onExisting find check associate
      countError).Returns s b s') ↔ Matchable table audited a (find s) check := by
  simp only [returns_tryMatch]
  constructor
  · rintro ⟨b,s',id,hid,-,hnone,hfind,hcheck,ha⟩
    exact ⟨⟨id,hid,(hassociate id b hfind).mp ⟨s',ha⟩⟩,(hexisting id hid).mp hnone,b,hfind,hcheck⟩
  · rintro ⟨⟨id,hid,hstored⟩,hfree,b,hfind,hcheck⟩
    obtain ⟨s',ha⟩ := (hassociate id b hfind).mpr hstored
    exact ⟨b,s',id,hid,hprecheck b hcheck,(hexisting id hid).mpr hfree,hfind,hcheck,ha⟩

end tryMatch

/-! ### The four calls -/

theorem matchDeposit_returns_iff (hm : MintRefs s) (d : GnosisSafeDeposit)
    (safe : AuditedSafeConfig) :
    (∃ m s', (AuditedMint.tryMatchDepositWithMint d safe).Returns s m s') ↔ d.Matchable safe s := by
  refine tryMatch_returns_iff (a := d) (fun m hv => ?_) (fun id hid => ?_) fun id m hf => ?_
  · rw [if_neg (by rw [((verifyMint_eq_ok m d safe ()).mp hv).1]; simp)]
  · have hid' : d.id = some id := hid
    rw [existing_mint_iff hm]
    simp [GnosisSafeDeposit.isAudited, hid']
  · have hmid : m.id = some (key m) := id_of_find? hf
    rw [hmid, unwrap_bind, associateMint_returns_iff, and_iff_right (find_key_isSome hf)]

theorem matchMint_returns_iff (hm : MintRefs s) (m : MintTx) (config : GnosisSafeConfig) :
    (∃ d s', (AuditedMint.tryMatchMintWithDeposit m config).Returns s d s') ↔
      m.Matchable config s := by
  refine tryMatch_returns_iff (a := m) (fun _ _ => rfl) (fun id hid => ?_) fun id d hf => ?_
  · have hid' : m.id = some id := hid
    rw [existing_mint_iff hm]
    simp [MintTx.isAudited, hid']
  · have hdid : d.id = some (key d) := id_of_find? hf
    rw [hdid, unwrap_bind, associateMint_returns_iff, and_iff_left (find_key_isSome hf)]

theorem matchWithdrawal_returns_iff (hb : BurnRefs s) (w : GnosisSafeWithdrawal)
    (safe : AuditedSafeConfig) :
    (∃ b s', (AuditedBurn.tryMatchWithdrawalWithBurn w safe).Returns s b s') ↔
      w.Matchable safe s := by
  refine tryMatch_returns_iff (a := w) (fun b hv => ?_) (fun id hid => ?_) fun id b hf => ?_
  · rw [if_neg (by rw [((verifyBurn_eq_ok b w safe ()).mp hv).1]; simp)]
  · have hid' : w.id = some id := hid
    rw [existing_burn_iff hb]
    simp [GnosisSafeWithdrawal.isAudited, hid']
  · have hbid : b.id = some (key b) := id_of_find? hf
    rw [hbid, unwrap_bind, associateBurn_returns_iff, and_iff_right (find_key_isSome hf)]

theorem matchBurn_returns_iff (hb : BurnRefs s) (b : BurnTxOut) (config : GnosisSafeConfig) :
    (∃ w s', (AuditedBurn.tryMatchBurnWithWithdrawal b config).Returns s w s') ↔
      b.Matchable config s := by
  refine tryMatch_returns_iff (a := b) (fun _ _ => rfl) (fun id hid => ?_) fun id w hf => ?_
  · have hid' : b.id = some id := hid
    rw [existing_burn_iff hb]
    simp [BurnTxOut.isAudited, hid']
  · have hwid : w.id = some (key w) := id_of_find? hf
    rw [hwid, unwrap_bind, associateBurn_returns_iff, and_iff_left (find_key_isSome hf)]

end ReserveAuditor
