import ReserveAuditor.Polling

/-! Two safes that are processed side by side, and one of them alone: the table of processed
hashes is shared, so that one safe can hide a transaction from the other. -/
namespace ReserveAuditor
open Txn Relational

/-! ### The rows of a safe -/

theorem depositsOf_valid {safe : AuditedSafeConfig} {tx : EthereumTransaction}
    (transfers : List EthereumTransfer) :
    ∀ d ∈ safe.depositsOf tx transfers, d.id = none ∧ DepositValid safe d := by
  induction transfers with
  | nil => simp [AuditedSafeConfig.depositsOf]
  | cons transfer transfers ih =>
    intro d hd
    rw [AuditedSafeConfig.depositsOf] at hd
    split at hd
    · rename_i ha
      split at hd
      -- a transfer into the safe that can be read
      · rename_i d₀ hd₀
        rcases List.mem_cons.mp hd with rfl | hd
        · exact depositOfTransfer_valid ha hd₀
        · exact ih d hd
      · simp at hd
    · exact ih d hd

theorem recordedDeposits_valid {safe : AuditedSafeConfig} (tx : Transaction) :
    ∀ d ∈ safe.recordedDeposits tx, d.id = none ∧ DepositValid safe d := by
  cases tx with
  | ethereum tx => exact depositsOf_valid tx.transfers
  | multiSig tx => simp [AuditedSafeConfig.recordedDeposits]
  | module v => simp [AuditedSafeConfig.recordedDeposits]

theorem recordedWithdrawals_valid {safe : AuditedSafeConfig} (tx : Transaction) :
    ∀ w ∈ safe.recordedWithdrawals tx, w.id = none ∧ (w.safeAddr == safe.safeAddr) = true := by
  cases tx with
  | ethereum tx => simp [AuditedSafeConfig.recordedWithdrawals]
  | module v => simp [AuditedSafeConfig.recordedWithdrawals]
  | multiSig tx =>
    intro w hw
    rw [AuditedSafeConfig.recordedWithdrawals, AuditedSafeConfig.withdrawalsOf] at hw
    split at hw
    · rename_i ha
      split at hw
      · rename_i w₀ hw₀
        obtain rfl := List.mem_singleton.mp hw
        -- the parser copies the address of the safe that made the transaction
        obtain ⟨hid,hsafe⟩ := parse_safeAddr hw₀
        exact ⟨hid,hsafe ▸ ha⟩
      · simp at hw
    · simp at hw

/-- The deposits into the safe and the withdrawals from it, ignoring ids. -/
def rowsOfSafe (safe : AuditedSafeConfig) (s : Db) :
    List GnosisSafeDeposit × List GnosisSafeWithdrawal :=
  ((storedDeposits s).filter fun d => d.safeAddr == safe.safeAddr,
    (storedWithdrawals s).filter fun w => w.safeAddr == safe.safeAddr)

variable {other safe : AuditedSafeConfig} {serde : Serde} {s s' t t' : Db}

theorem not_beq_of_beq {a b c : EthAddr} (h : (a == b) = true) (hne : (b == c) = false) :
    (a == c) = false := by
  rwa [EthAddr.beq_congr_left h c]

/-- Processing a transaction adds what it stands for to the rows of the safe. -/
theorem Processed.rowsOfSafe {tx : Transaction} (h : Processed safe s tx s') :
    ReserveAuditor.rowsOfSafe safe s' =
      ((ReserveAuditor.rowsOfSafe safe s).1 ++
          (safe.recordedDeposits tx).map GnosisSafeDeposit.unsaved,
        (ReserveAuditor.rowsOfSafe safe s).2 ++
          (safe.recordedWithdrawals tx).map GnosisSafeWithdrawal.unsaved) := by
  -- all that is recorded carries the address of the safe
  have hd : ((safe.recordedDeposits tx).map GnosisSafeDeposit.unsaved).filter
      (fun d => d.safeAddr == safe.safeAddr) =
      (safe.recordedDeposits tx).map GnosisSafeDeposit.unsaved := by
    refine List.filter_eq_self.mpr fun d hd => ?_
    obtain ⟨d₀,hd₀,rfl⟩ := List.mem_map.mp hd
    exact (recordedDeposits_valid tx d₀ hd₀).2.safeAddr
  have hw : ((safe.recordedWithdrawals tx).map GnosisSafeWithdrawal.unsaved).filter
      (fun w => w.safeAddr == safe.safeAddr) =
      (safe.recordedWithdrawals tx).map GnosisSafeWithdrawal.unsaved := by
    refine List.filter_eq_self.mpr fun w hw => ?_
    obtain ⟨w₀,hw₀,rfl⟩ := List.mem_map.mp hw
    exact (recordedWithdrawals_valid tx w₀ hw₀).2
  simp only [ReserveAuditor.rowsOfSafe, h.rowsAdded.deposits, h.rowsAdded.withdrawals,
    List.filter_append, hd, hw]

/-- Processing a transaction for another safe leaves the rows of the safe as they are. -/
theorem Processed.rowsOfSafe_other {tx : Transaction}
    (hne : (other.safeAddr == safe.safeAddr) = false) (h : Processed other s tx s') :
    ReserveAuditor.rowsOfSafe safe s' = ReserveAuditor.rowsOfSafe safe s := by
  -- what the other safe records carries the other address
  have hd : ((other.recordedDeposits tx).map GnosisSafeDeposit.unsaved).filter
      (fun d => d.safeAddr == safe.safeAddr) = [] := by
    refine List.filter_eq_nil_iff.mpr fun d hd => ?_
    obtain ⟨d₀,hd₀,rfl⟩ := List.mem_map.mp hd
    have hsafe := not_beq_of_beq (recordedDeposits_valid tx d₀ hd₀).2.safeAddr hne
    simp [GnosisSafeDeposit.unsaved, hsafe]
  have hw : ((other.recordedWithdrawals tx).map GnosisSafeWithdrawal.unsaved).filter
      (fun w => w.safeAddr == safe.safeAddr) = [] := by
    refine List.filter_eq_nil_iff.mpr fun w hw => ?_
    obtain ⟨w₀,hw₀,rfl⟩ := List.mem_map.mp hw
    have hsafe := not_beq_of_beq (recordedWithdrawals_valid tx w₀ hw₀).2 hne
    simp [GnosisSafeWithdrawal.unsaved, hsafe]
  simp only [ReserveAuditor.rowsOfSafe, h.rowsAdded.deposits, h.rowsAdded.withdrawals,
    List.filter_append, hd, hw, List.append_nil]

/-! ### Both safes, and one alone -/

/-- A transaction that was fetched for another safe, or for the safe itself. -/
inductive Fetched where
  | forOther (tx : RawGnosisTransaction)
  | forSafe (tx : RawGnosisTransaction)

namespace Fetched

def tx : Fetched → RawGnosisTransaction
  | forOther tx => tx
  | forSafe tx => tx

def own? : Fetched → Option RawGnosisTransaction
  | forOther _ => none
  | forSafe tx => some tx

def program (other safe : AuditedSafeConfig) (serde : Serde) : Fetched → Conn Unit
  | forOther tx => other.processRawTransaction serde tx
  | forSafe tx => safe.processRawTransaction serde tx

end Fetched

/-- The threads of both safes process what was fetched for them, in this order. -/
def processFetched (other safe : AuditedSafeConfig) (serde : Serde) (fetched : List Fetched) :
    Conn Unit := Program.forEach fetched (Fetched.program other safe serde)

/-- The transactions of the safe whose hash another safe recorded first stand for no deposit into
the safe and for no withdrawal from it. -/
def NothingHidden (safe : AuditedSafeConfig) (serde : Serde) (s : Db) (fetched : List Fetched) :
    Prop := ∀ before tx hash decoded, before ++ [.forSafe tx] <+: fetched →
  tx.txHash = .ok hash → hashProcessed s hash.toString = false →
  (∃ f ∈ before, f.own? = none ∧ f.tx.txHash = .ok hash) →
  (∀ own ∈ before.filterMap Fetched.own?, own.txHash ≠ .ok hash) →
  tx.decode serde = .ok decoded →
    safe.recordedDeposits decoded = [] ∧ safe.recordedWithdrawals decoded = []

/-- The run of both safes and the run of one alone, after the same transactions of that one. -/
structure SideBySide (safe : AuditedSafeConfig) (serde : Serde) (s : Db) (fetched : List Fetched)
    (t t' : Db) : Prop where
  both : ∀ hash : EthTxHash, hashProcessed t hash.toString = true ↔
    hashProcessed s hash.toString = true ∨ ∃ f ∈ fetched, f.tx.txHash = .ok hash
  alone : ∀ hash : EthTxHash, hashProcessed t' hash.toString = true ↔
    hashProcessed s hash.toString = true ∨
      ∃ own ∈ fetched.filterMap Fetched.own?, own.txHash = .ok hash
  deposits : (rowsOfSafe safe t).1.length ≤ (rowsOfSafe safe t').1.length
  withdrawals : (rowsOfSafe safe t).2.length ≤ (rowsOfSafe safe t').2.length
  same : rowsOfSafe safe t = rowsOfSafe safe t' ↔ NothingHidden safe serde s fetched

theorem sideBySide_nil (safe : AuditedSafeConfig) (serde : Serde) (s : Db) :
    SideBySide safe serde s [] s s where
  both := by simp
  alone := by simp
  deposits := le_rfl
  withdrawals := le_rfl
  same := iff_of_true rfl fun before tx hash decoded hpre => by simp at hpre

theorem nothingHidden_append {fetched : List Fetched} {f : Fetched} :
    NothingHidden safe serde s (fetched ++ [f]) ↔ NothingHidden safe serde s fetched ∧
      ∀ tx hash decoded, f = .forSafe tx → tx.txHash = .ok hash →
        hashProcessed s hash.toString = false →
        (∃ x ∈ fetched, x.own? = none ∧ x.tx.txHash = .ok hash) →
        (∀ own ∈ fetched.filterMap Fetched.own?, own.txHash ≠ .ok hash) →
        tx.decode serde = .ok decoded →
          safe.recordedDeposits decoded = [] ∧ safe.recordedWithdrawals decoded = [] := by
  constructor
  · intro h
    refine ⟨fun before tx hash decoded hpre => h before tx hash decoded
      (hpre.trans (List.prefix_append _ _)),?_⟩
    rintro tx hash decoded rfl
    exact h fetched tx hash decoded List.prefix_rfl
  · rintro ⟨hold,hnew⟩ before tx hash decoded hpre
    -- the transaction is the last one, or it was already among those before
    rcases List.prefix_concat_iff.mp hpre with heq | hpre
    · obtain ⟨rfl,hf⟩ := List.append_inj' heq rfl
      exact hnew tx hash decoded (List.singleton_inj.mp hf).symm
    · exact hold before tx hash decoded hpre

theorem eq_append_iff_of_length_le {α : Type} {a b r : List α} (h : a.length ≤ b.length) :
    a = b ++ r ↔ a = b ∧ r = [] := by
  constructor
  · rintro rfl
    have hr : r = [] := by
      rw [List.length_append] at h
      exact List.length_eq_zero_iff.mp (by omega)
    simp [hr]
  · rintro ⟨rfl,rfl⟩
    simp

section step
variable {fetched : List Fetched} {t₁ t₁' : Db} {tx : RawGnosisTransaction} {hash : EthTxHash}

theorem rowsOfSafe_recordHash :
    rowsOfSafe safe (recordHash serde tx hash s) = rowsOfSafe safe s := rfl

theorem RawProcessed.rowsOfSafe_other (hne : (other.safeAddr == safe.safeAddr) = false)
    (h : RawProcessed other serde t tx hash t₁) : rowsOfSafe safe t₁ = rowsOfSafe safe t := by
  cases h with
  | skipped _ same => rw [same]
  | recorded _ decoded _ processed =>
    exact (processed.rowsOfSafe_other hne).trans rowsOfSafe_recordHash

theorem exists_mem_concat {α : Type} {l : List α} {a : α} {p : α → Prop} :
    (∃ x ∈ l ++ [a], p x) ↔ (∃ x ∈ l, p x) ∨ p a := by
  simp only [List.mem_append, List.mem_singleton, or_and_right, exists_or, exists_eq_left]

theorem txHash_eq_iff (hhash : tx.txHash = .ok hash) (x : EthTxHash) :
    tx.txHash = .ok x ↔ x = hash := by
  rw [hhash, Except.ok.injEq, eq_comm]

/-- The hashes that both safes have processed, after one more transaction. -/
theorem SideBySide.both_concat (h : SideBySide safe serde s fetched t t') (f : Fetched)
    (hhash : f.tx.txHash = .ok hash) (x : EthTxHash)
    (hp : hashProcessed t₁ x.toString = true ↔ hashProcessed t x.toString = true ∨ x = hash) :
    hashProcessed t₁ x.toString = true ↔
      hashProcessed s x.toString = true ∨ ∃ g ∈ fetched ++ [f], g.tx.txHash = .ok x := by
  rw [hp, h.both, exists_mem_concat, or_assoc]
  exact or_congr_right (or_congr_right (txHash_eq_iff hhash x).symm)

/-- The hashes that the safe alone has processed, after one more transaction of it. -/
theorem SideBySide.alone_concat (h : SideBySide safe serde s fetched t t')
    (hhash : tx.txHash = .ok hash) (x : EthTxHash)
    (hp : hashProcessed t₁' x.toString = true ↔ hashProcessed t' x.toString = true ∨ x = hash) :
    hashProcessed t₁' x.toString = true ↔ hashProcessed s x.toString = true ∨
      ∃ own ∈ (fetched ++ [Fetched.forSafe tx]).filterMap Fetched.own?, own.txHash = .ok x := by
  have hown : (fetched ++ [Fetched.forSafe tx]).filterMap Fetched.own? =
      fetched.filterMap Fetched.own? ++ [tx] := by
    rw [List.filterMap_append]
    rfl
  rw [hp, h.alone, hown, exists_mem_concat, or_assoc]
  exact or_congr_right (or_congr_right (txHash_eq_iff hhash x).symm)

theorem SideBySide.recorded_of_alone (h : SideBySide safe serde s fetched t t')
    (hseen : hashProcessed t' hash.toString = true) : hashProcessed t hash.toString = true := by
  rcases (h.alone hash).mp hseen with hs | ⟨own,hown,hhash⟩
  · exact (h.both hash).mpr (Or.inl hs)
  · obtain ⟨f,hf,hfo⟩ := List.mem_filterMap.mp hown
    refine (h.both hash).mpr (Or.inr ⟨f,hf,?_⟩)
    cases f with
    | forOther _ => simp [Fetched.own?] at hfo
    | forSafe _ =>
      obtain rfl := Option.some.inj hfo
      exact hhash

/-- Another safe recorded the hash, and the safe itself did not do so before. -/
structure HashHidden (s : Db) (fetched : List Fetched) (hash : EthTxHash) : Prop where
  fresh : hashProcessed s hash.toString = false
  other : ∃ f ∈ fetched, f.own? = none ∧ f.tx.txHash = .ok hash
  own : ∀ own ∈ fetched.filterMap Fetched.own?, own.txHash ≠ .ok hash

theorem nothingHidden_forOther :
    NothingHidden safe serde s (fetched ++ [.forOther tx]) ↔
      NothingHidden safe serde s fetched := by
  rw [nothingHidden_append]
  simp

theorem nothingHidden_forSafe (hhash : tx.txHash = .ok hash) :
    NothingHidden safe serde s (fetched ++ [.forSafe tx]) ↔ NothingHidden safe serde s fetched ∧
      (HashHidden s fetched hash → ∀ decoded, tx.decode serde = .ok decoded →
        safe.recordedDeposits decoded = [] ∧ safe.recordedWithdrawals decoded = []) := by
  rw [nothingHidden_append]
  refine and_congr_right fun _ => ⟨fun h hhidden decoded hdec => ?_,?_⟩
  · exact h tx hash decoded rfl hhash hhidden.fresh hhidden.other hhidden.own hdec
  · rintro h tx' hash' decoded heq hhash' hfresh hother hown hdec
    obtain rfl : tx = tx' := by simpa using heq
    obtain rfl : hash = hash' := Except.ok.inj (hhash.symm.trans hhash')
    exact h ⟨hfresh,hother,hown⟩ decoded hdec

/-- The hidden hashes are those that both safes together have recorded and the safe alone has
not. -/
theorem SideBySide.hashHidden_iff (h : SideBySide safe serde s fetched t t') :
    HashHidden s fetched hash ↔
      hashProcessed t hash.toString = true ∧ hashProcessed t' hash.toString = false := by
  rw [← Bool.not_eq_true (hashProcessed t' hash.toString), h.both, h.alone, not_or]
  constructor
  · rintro ⟨hfresh,⟨f,hf,-,hfh⟩,hown⟩
    refine ⟨Or.inr ⟨f,hf,hfh⟩,by simp [hfresh],?_⟩
    rintro ⟨own,hmem,hownh⟩
    exact hown own hmem hownh
  · rintro ⟨hseen,hfresh,hnone⟩
    obtain ⟨f,hf,hfh⟩ := hseen.resolve_left hfresh
    have hown : ∀ own ∈ fetched.filterMap Fetched.own?, own.txHash ≠ .ok hash :=
      fun own hmem hownh => hnone ⟨own,hmem,hownh⟩
    refine ⟨Bool.not_eq_true _ ▸ hfresh,⟨f,hf,?_,hfh⟩,hown⟩
    -- the entry that showed the hash first is the other safe's, as no own one has it
    cases f with
    | forOther _ => rfl
    | forSafe own => exact absurd hfh (hown own (List.mem_filterMap.mpr ⟨_,hf,rfl⟩))

theorem SideBySide.forOther (hne : (other.safeAddr == safe.safeAddr) = false)
    (h : SideBySide safe serde s fetched t t') (hhash : tx.txHash = .ok hash)
    (hp : RawProcessed other serde t tx hash t₁) :
    SideBySide safe serde s (fetched ++ [.forOther tx]) t₁ t' := by
  have hrows := hp.rowsOfSafe_other hne
  have hboth := fun x => h.both_concat (.forOther tx) hhash x (hp.hashProcessed_iff x)
  refine ⟨hboth,fun x => ?_,?_,?_,?_⟩
  -- run alone, the safe does not see this transaction
  · rw [h.alone, List.filterMap_append]
    simp [Fetched.own?]
  · rw [hrows]
    exact h.deposits
  · rw [hrows]
    exact h.withdrawals
  · rw [hrows, h.same, nothingHidden_forOther]

/-- Rows that only the run alone adds must be none, for both to have the same. -/
theorem SideBySide.rows_eq_iff_nil (h : SideBySide safe serde s fetched t t')
    {ds : List GnosisSafeDeposit} {ws : List GnosisSafeWithdrawal}
    (hrows : rowsOfSafe safe t₁' = ((rowsOfSafe safe t').1 ++ ds,(rowsOfSafe safe t').2 ++ ws)) :
    rowsOfSafe safe t = rowsOfSafe safe t₁' ↔
      rowsOfSafe safe t = rowsOfSafe safe t' ∧ ds = [] ∧ ws = [] := by
  rw [hrows, Prod.ext_iff, Prod.ext_iff]
  simp only [eq_append_iff_of_length_le h.deposits, eq_append_iff_of_length_le h.withdrawals]
  tauto

theorem SideBySide.forSafe (h : SideBySide safe serde s fetched t t')
    (hhash : tx.txHash = .ok hash) (hp : RawProcessed safe serde t tx hash t₁)
    (hp' : RawProcessed safe serde t' tx hash t₁') :
    SideBySide safe serde s (fetched ++ [.forSafe tx]) t₁ t₁' := by
  have hboth := fun x => h.both_concat (.forSafe tx) hhash x (hp.hashProcessed_iff x)
  have halone := fun x => h.alone_concat hhash x (hp'.hashProcessed_iff x)
  cases hp' with
  | skipped seen' same' =>
    -- the safe saw the hash before, so both runs skip the transaction
    have hnot : ¬ HashHidden s fetched hash := by
      rw [h.hashHidden_iff, seen']
      simp
    cases hp with
    | recorded fresh _ _ _ => simp [h.recorded_of_alone seen'] at fresh
    | skipped _ same =>
      subst same same'
      refine ⟨hboth,halone,h.deposits,h.withdrawals,?_⟩
      rw [h.same, nothingHidden_forSafe hhash]
      exact (and_iff_left fun hhidden => absurd hhidden hnot).symm
  | recorded fresh' decoded decodes processed' =>
    have hrows' := processed'.rowsOfSafe
    rw [rowsOfSafe_recordHash] at hrows'
    cases hp with
    | skipped seen same =>
      -- another safe recorded the hash first: only the run alone adds rows
      subst same
      have hhidden : HashHidden s fetched hash := h.hashHidden_iff.mpr ⟨seen,fresh'⟩
      refine ⟨hboth,halone,?_,?_,?_⟩
      · rw [hrows', List.length_append]
        exact h.deposits.trans (Nat.le_add_right _ _)
      · rw [hrows', List.length_append]
        exact h.withdrawals.trans (Nat.le_add_right _ _)
      · rw [h.rows_eq_iff_nil hrows', h.same, nothingHidden_forSafe hhash, List.map_eq_nil_iff,
          List.map_eq_nil_iff]
        refine and_congr_right fun _ => ⟨fun hnil _ decoded' hdec => ?_,fun hall => ?_⟩
        · obtain rfl : decoded = decoded' := Except.ok.inj (decodes.symm.trans hdec)
          exact hnil
        · exact hall hhidden decoded decodes
    | recorded fresh decoded₂ decodes₂ processed =>
      -- neither run saw the hash, so both add the same rows
      obtain rfl : decoded = decoded₂ := Except.ok.inj (decodes.symm.trans decodes₂)
      have hnot : ¬ HashHidden s fetched hash := by
        rw [h.hashHidden_iff, fresh]
        simp
      have hrows := processed.rowsOfSafe
      rw [rowsOfSafe_recordHash] at hrows
      refine ⟨hboth,halone,?_,?_,?_⟩
      · rw [hrows, hrows', List.length_append, List.length_append]
        exact Nat.add_le_add_right h.deposits _
      · rw [hrows, hrows', List.length_append, List.length_append]
        exact Nat.add_le_add_right h.withdrawals _
      · rw [hrows, hrows', Prod.ext_iff, List.append_left_inj, List.append_left_inj,
          ← Prod.ext_iff, h.same, nothingHidden_forSafe hhash]
        exact (and_iff_left fun hhidden => absurd hhidden hnot).symm

end step

theorem sideBySide_of_returns (hne : (other.safeAddr == safe.safeAddr) = false)
    (fetched : List Fetched) {t t' : Db}
    (hboth : (processFetched other safe serde fetched).Returns s () t)
    (halone : (safe.processTransactions serde (fetched.filterMap Fetched.own?)).Returns s () t') :
    SideBySide safe serde s fetched t t' := by
  unfold processFetched at hboth
  unfold AuditedSafeConfig.processTransactions at halone
  induction fetched using List.reverseRecOn generalizing t t' with
  | nil =>
    rw [(Program.returns_forEach_nil _ _ _ _).mp hboth, (Program.returns_forEach_nil _ _ _ _).mp halone]
    exact sideBySide_nil safe serde s
  | append_singleton fetched f ih =>
    obtain ⟨t₁,ht₁,hlast⟩ := (Program.returns_forEach_append _ _ _ _ _ _).mp hboth
    obtain ⟨t₂,hlast,hnil⟩ := (Program.returns_forEach_cons _ _ _ _ _ _).mp hlast
    obtain rfl := (Program.returns_forEach_nil _ _ _ _).mp hnil
    rw [List.filterMap_append] at halone
    obtain ⟨t₁',ht₁',hlast'⟩ := (Program.returns_forEach_append _ _ _ _ _ _).mp halone
    have hside := ih ht₁ ht₁'
    cases f with
    | forOther tx =>
      -- the other safe's transaction is left out of the run alone
      obtain rfl := (Program.returns_forEach_nil _ _ _ _).mp hlast'
      obtain ⟨hash,hhash,-⟩ := returns_processRawTransaction hlast
      exact hside.forOther hne hhash (rawProcessed_of_returns hhash hlast)
    | forSafe tx =>
      obtain ⟨t₂',hone,hnil'⟩ := (Program.returns_forEach_cons _ _ _ _ _ _).mp hlast'
      obtain rfl := (Program.returns_forEach_nil _ _ _ _).mp hnil'
      obtain ⟨hash,hhash,-⟩ := returns_processRawTransaction hlast
      exact hside.forSafe hhash (rawProcessed_of_returns hhash hlast)
        (rawProcessed_of_returns hhash hone)

/-- Next to another safe the rows of a safe are those it has alone exactly when no transaction
that stands for a row of the safe was recorded for the other safe first. -/
theorem rowsOfSafe_eq_iff_nothingHidden (other safe : AuditedSafeConfig) (serde : Serde)
    (hne : (other.safeAddr == safe.safeAddr) = false) (s t t' : Db) (fetched : List Fetched)
    (hboth : (processFetched other safe serde fetched).Returns s () t)
    (halone : (safe.processTransactions serde (fetched.filterMap Fetched.own?)).Returns s () t') :
    rowsOfSafe safe t = rowsOfSafe safe t' ↔ NothingHidden safe serde s fetched :=
  (sideBySide_of_returns hne fetched hboth halone).same

/-- A transaction for each safe. -/
def separateFetched : List Fetched :=
  [.forOther (Reference.depositTx '1' [(Reference.safeAddrA,"3000000000000")]),
    .forSafe (Reference.depositTx '2' [(Reference.safeAddrB,"5000000000000")])]

theorem separateFetched_rowsOfSafe :
    let t := (processFetched Reference.safeA Reference.safeB Reference.serde separateFetched
      initialDb).state
    let t' := (Reference.safeB.processTransactions Reference.serde
      (separateFetched.filterMap Fetched.own?) initialDb).state
    rowsOfSafe Reference.safeB t = rowsOfSafe Reference.safeB t' ↔
      NothingHidden Reference.safeB Reference.serde initialDb separateFetched :=
  rowsOfSafe_eq_iff_nothingHidden Reference.safeA Reference.safeB Reference.serde
    (by decide +kernel) initialDb _ _ separateFetched (Program.returns_of_isOk (by decide +kernel))
    (Program.returns_of_isOk (by decide +kernel))

/-- One transaction that deposits into both safes, fetched for both. -/
def sharedFetched : List Fetched :=
  [.forOther (Reference.depositTx '1' [(Reference.safeAddrA,"3000000000000"),
      (Reference.safeAddrB,"5000000000000")]),
    .forSafe (Reference.depositTx '1' [(Reference.safeAddrA,"3000000000000"),
      (Reference.safeAddrB,"5000000000000")])]

theorem sharedFetched_runs :
    let r := processFetched Reference.safeA Reference.safeB Reference.serde sharedFetched initialDb
    let r' := Reference.safeB.processTransactions Reference.serde
      (sharedFetched.filterMap Fetched.own?) initialDb
    r.outcome.isOk = true ∧ r'.outcome.isOk = true ∧
      (rowsOfSafe Reference.safeB r.state).1.length = 0 ∧
      (rowsOfSafe Reference.safeB r'.state).1.length = 1 := by
  decide +kernel

/-- The deposit into the second safe is missing when the first one was processed before. -/
theorem sharedFetched_hides :
    let t := (processFetched Reference.safeA Reference.safeB Reference.serde sharedFetched
      initialDb).state
    let t' := (Reference.safeB.processTransactions Reference.serde
      (sharedFetched.filterMap Fetched.own?) initialDb).state
    (processFetched Reference.safeA Reference.safeB Reference.serde sharedFetched).Returns
      initialDb () t ∧
    (Reference.safeB.processTransactions Reference.serde
      (sharedFetched.filterMap Fetched.own?)).Returns initialDb () t' ∧
    rowsOfSafe Reference.safeB t ≠ rowsOfSafe Reference.safeB t' := by
  obtain ⟨hok,hok',hlen,hlen'⟩ := sharedFetched_runs
  refine ⟨Program.returns_of_isOk hok,Program.returns_of_isOk hok',fun he => ?_⟩
  rw [he, hlen'] at hlen
  simp at hlen

end ReserveAuditor
