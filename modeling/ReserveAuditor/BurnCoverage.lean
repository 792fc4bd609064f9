import ReserveAuditor.BlockAcceptance
import ReserveAuditor.Confluence

/-! Whether a match between a burn and a withdrawal can be lost. Several withdrawals may carry
the key of one output, and a burn that arrives looks at the first of them only. -/
namespace ReserveAuditor
open Txn Relational Matching

variable {config : GnosisSafeConfig} {ext : Externals} {serde : Serde} {s s' : Db}

/-- If the block can be synced, each of its burns that matches some unaudited withdrawal matches the
one that the search by its key looks at. -/
def Step.LooksAtMatch (ext : Externals) (s : Db) : Step config → Prop
  | .ledger b => Accepts ext b s →
      ∀ burn ∈ burnTxOutsOf ext b.block.index b.timestamp b.contents.outputs,
      ∀ w ∈ s.gnosisSafeWithdrawals.rows, w.isAudited s = false →
        AuditedBurn.verifyWithdrawalOfBurn burn config w = .ok () →
        ∃ w', GnosisSafeWithdrawal.findUnauditedWithdrawalByPublicKey burn.publicKeyHex s = some w' ∧
          AuditedBurn.verifyWithdrawalOfBurn burn config w' = .ok ()
  | .gnosis _ _ _ => True

/-- A burn that matches an unaudited withdrawal is itself matched. -/
def BurnsCovered (config : GnosisSafeConfig) (s : Db) : Prop :=
  ∀ b ∈ s.burnTxOuts.rows, ∀ w ∈ s.gnosisSafeWithdrawals.rows, ∀ safe,
    config.getAuditedSafeConfigBySafeAddr w.safeAddr = some safe →
    AuditedBurn.verifyBurnTxOutMatchesWithdrawal b w safe = .ok () → w.isAudited s = false →
    b.isAudited s = true

theorem burnsCovered_of_board (h : Board.Covered (burnSides config) (burnBoard s) []) :
    BurnsCovered config s := by
  intro b hb w hw safe hsafe hverify hw'
  have hmatch : BurnMatches config b w := by
    refine (verifyWithdrawalOfBurn_eq_ok config b w ()).mp ?_
    simp only [AuditedBurn.verifyWithdrawalOfBurn, hsafe, hverify]
  have hlinked := h b hb (by simp) w hw ((burnSides_fits config b w).mpr hmatch) ?_
  · exact (burn_linkedL_iff s b).mp hlinked
  · intro hl
    have ha := (burn_linkedR_iff s w).mp hl
    simp [hw'] at ha

/-! ### Ledger steps -/

theorem burnSides_fits_withId (burn : BurnTxOut) (n : ℕ) (w : GnosisSafeWithdrawal) :
    (burnSides config).fits (Record.withId burn n) w = (burnSides config).fits burn w := by
  rw [Bool.eq_iff_iff, burnSides_fits, burnSides_fits]
  exact ⟨fun h => ⟨h.key,h.amount,h.token⟩,fun h => ⟨h.key,h.amount,h.token⟩⟩

theorem headFits_of_looksAtMatch {b : BlockData} {burn : BurnTxOut}
    (h : (Step.ledger b : Step config).LooksAtMatch ext s)
    (hb : Accepts ext b s)
    (hmem : burn ∈ burnTxOutsOf ext b.block.index b.timestamp b.contents.outputs) (n : ℕ) :
    Board.HeadFits (burnSides config) (burnBoard s) (Record.withId burn n) := by
  -- the id given to the new burn plays no part in the check
  have hok (w : GnosisSafeWithdrawal) : (burnSides config).fits (Record.withId burn n) w = true ↔
      AuditedBurn.verifyWithdrawalOfBurn burn config w = .ok () := by
    rw [burnSides_fits_withId, burnSides_fits, verifyWithdrawalOfBurn_eq_ok]
  intro w hw hfits hfree
  have haudited : w.isAudited s = false := by
    rw [← Bool.not_eq_true]
    exact fun ha => hfree ((burn_linkedR_iff s w).mpr ha)
  -- the withdrawal that the query returns first is one that passes
  obtain ⟨w',hfind,hw'⟩ := h hb burn hmem w hw haudited ((hok w).mp hfits)
  refine ⟨w',?_,(hok w').mpr hw'⟩
  rw [show (burnSides config).keyL (Record.withId burn n) = burn.publicKeyHex from rfl,
    burn_candidateR]
  exact hfind

theorem LedgerMoved.covered {b : BlockData} (h : LedgerMoved ext config b s s')
    (hi : Audited config s) (hb : Accepts ext b s)
    (hl : (Step.ledger b : Step config).LooksAtMatch ext s)
    (hc : Board.Covered (burnSides config) (burnBoard s) []) :
    Board.Covered (burnSides config) (burnBoard s') [] := by
  obtain ⟨data,s₁,hsynced,-,-,hboard⟩ := h.moved
  obtain ⟨hn,hd⟩ := burn_names hsynced.burns
  rw [hboard]
  refine hc.arriveLefts (hi.burns.addLefts hn hd) ?_ fun x hx => ?_
  -- no two burns of the block share a public key
  · have hu := s₁.burnTxOuts.unique
    rw [hsynced.burns, List.pairwise_append] at hu
    refine hu.2.1.imp fun {x y} hxy hk => ?_
    have hk' : x.publicKeyHex = y.publicKeyHex := hk
    simp [Record.clash, hk'] at hxy
  · obtain ⟨burn,hburn,n,rfl⟩ := forall₂_mem_right hsynced.burnsStored hx
    exact headFits_of_looksAtMatch hl hb hburn n

/-! ### Gnosis steps -/

theorem DepositsAdded.burnBoard {safe : AuditedSafeConfig} {ds : List GnosisSafeDeposit}
    (h : DepositsAdded safe s ds s') : burnBoard s' = burnBoard s := by
  induction h with
  | nil counted =>
    obtain ⟨c,-,rfl⟩ := counted
    rfl
  | cons n _ head _ ih =>
    obtain ⟨t,u,c,-,rfl⟩ := head.frame
    exact ih

theorem Processed.covered {safe : AuditedSafeConfig} {tx : Transaction}
    (h : Processed safe s tx s') (hd : config.Distinct) (hsafe : safe ∈ config.safes)
    (hi : Audited config s) (hc : Board.Covered (burnSides config) (burnBoard s) []) :
    Board.Covered (burnSides config) (burnBoard s') [] := by
  cases h with
  | deposits added _ =>
    rwa [added.burnBoard]
  | withdrawal _ w₀ n _ _ added =>
    have hn : ∀ w' ∈ (burnBoard s).rights, (burnSides config).nameR w' ≠
        (burnSides config).nameR (Record.withId w₀ n) :=
      fun w' hw' => Table.id_ne_of_append added.rows hw' (List.mem_singleton.mpr rfl)
    rw [added.board config hd hsafe (burnRefs_of_sound hi.burns)]
    exact hc.arriveRight hi.burns hn (burn_keysL config s)

/-! ### Runs -/

theorem covered_step (hd : config.Distinct) (step : Step config) (hi : Audited config s)
    (hl : step.LooksAtMatch ext s) (hc : Board.Covered (burnSides config) (burnBoard s) [])
    (h : (step.program ext serde).Returns s () s') :
    Board.Covered (burnSides config) (burnBoard s') [] := by
  cases step with
  | ledger b =>
    have hsync := h
    simp only [Step.program, syncAndAudit, returns_exclusiveTransaction, Program.returns_bind] at hsync
    obtain ⟨data,s₁,hsync,-⟩ := hsync
    exact (returns_syncAndAudit hi h).covered hi
      ⟨acceptable_of_returns hi.refs hsync,readable_of_returns hi.refs hsync⟩ hl hc
  | gnosis safe hsafe tx =>
    obtain ⟨hash,-,⟨-,rfl⟩ | ⟨-,decoded,-,hp⟩⟩ := returns_processRawTransaction h
    · exact hc
    · exact hp.covered hd hsafe (hi.recordHash tx hash) hc

/-- No match of a burn is lost in a run in which each burn that arrives looks at a withdrawal
that it matches, if there is one. -/
theorem run_burns_covered (ext : Externals) (serde : Serde) (config : GnosisSafeConfig)
    (hd : config.Distinct) (steps : List (Step config))
    (hl : ∀ before step, before ++ [step] <+: steps →
      step.LooksAtMatch ext (Step.run ext serde before)) :
    BurnsCovered config (Step.run ext serde steps) := by
  have hinv := run_induction ext serde
    (I := fun s => Audited config s ∧ Board.Covered (burnSides config) (burnBoard s) []) steps
  refine burnsCovered_of_board (hinv ⟨audited_initial,?_⟩ ?_).2
  · intro b hb
    simp [burnBoard, initialDb_eq, Db.empty, Table.empty] at hb
  · rintro before step hpre s' ⟨hi,hc⟩ h
    exact ⟨audited_step hd step hi h,covered_step hd step hi (hl before step hpre) hc h⟩

theorem verifyWithdrawalOfBurn_of_isOk {b : BurnTxOut} {w : GnosisSafeWithdrawal}
    (h : (AuditedBurn.verifyWithdrawalOfBurn b config w).isOk = true) :
    AuditedBurn.verifyWithdrawalOfBurn b config w = .ok () :=
  (verifyWithdrawalOfBurn_eq_ok config b w ()).mpr ((burnSides_fits config b w).mp h)

theorem isOk_of_find {burn : BurnTxOut}
    (h : ((GnosisSafeWithdrawal.findUnauditedWithdrawalByPublicKey burn.publicKeyHex s).any
      fun w => (AuditedBurn.verifyWithdrawalOfBurn burn config w).isOk) = true) :
    ∃ w, GnosisSafeWithdrawal.findUnauditedWithdrawalByPublicKey burn.publicKeyHex s = some w ∧
      AuditedBurn.verifyWithdrawalOfBurn burn config w = .ok () := by
  obtain ⟨w,hw,hok⟩ := (Option.any_eq_true _ _).mp h
  exact ⟨w,hw,verifyWithdrawalOfBurn_of_isOk hok⟩

theorem any_eq_false_of_covered (h : BurnsCovered config s) :
    (s.burnTxOuts.rows.any fun b => s.gnosisSafeWithdrawals.rows.any fun w =>
      (AuditedBurn.verifyWithdrawalOfBurn b config w).isOk && !w.isAudited s && !b.isAudited s)
      = false := by
  rw [← Bool.not_eq_true]
  intro hany
  obtain ⟨b,hb,hany⟩ := List.any_eq_true.mp hany
  obtain ⟨w,hw,hlost⟩ := List.any_eq_true.mp hany
  simp only [Bool.and_eq_true, Bool.not_eq_true'] at hlost
  obtain ⟨⟨hok,hfree⟩,hlost⟩ := hlost
  obtain ⟨hk,ha,safe,hsafe,token,ht,hid⟩ := (burnSides_fits config b w).mp hok
  have hverify : AuditedBurn.verifyBurnTxOutMatchesWithdrawal b w safe = .ok () :=
    (verifyBurn_eq_ok b w safe ()).mpr ⟨get_safe_config_beq hsafe,hk,ha,token,ht,hid⟩
  -- a pair that passes the check and has a free withdrawal is matched by coverage
  simp [h b hb w hw safe hsafe hverify hfree] at hlost

/-- A withdrawal of 2, then its burn. -/
def withdrawalFirst : List (Step Reference.config) :=
  [.gnosis Reference.safeA Reference.safeA_configured
      (Reference.withdrawalTx '2' Reference.safeAddrA "2000000000000" (List.replicate 32 9)),
    .ledger (Reference.blockOf 0 [] [] [Reference.burnOf (List.replicate 32 9) 2])]

theorem withdrawalFirst_looks : ∀ burn ∈ burnTxOutsOf Reference.externals 0 none
    [Reference.burnOf (List.replicate 32 9) 2],
      ((GnosisSafeWithdrawal.findUnauditedWithdrawalByPublicKey burn.publicKeyHex
        (Step.run Reference.externals Reference.serde (withdrawalFirst.take 1))).any fun w =>
          (AuditedBurn.verifyWithdrawalOfBurn burn Reference.config w).isOk) = true := by
  decide +kernel

theorem withdrawalFirst_covered : BurnsCovered Reference.config
    (Step.run Reference.externals Reference.serde withdrawalFirst) := by
  refine run_burns_covered Reference.externals Reference.serde Reference.config
    Reference.config_distinct withdrawalFirst ?_
  rintro before step ⟨after,h⟩
  rcases before with _ | ⟨x,_ | ⟨y,before⟩⟩
  · obtain ⟨rfl,-⟩ := List.cons.inj h
    trivial
  · obtain ⟨hx,h⟩ := List.cons.inj h
    obtain ⟨rfl,-⟩ := List.cons.inj h
    subst x
    -- the ledger step is the second one, and the withdrawal of the first is the one it finds
    intro _ burn hburn w _ _ _
    exact isOk_of_find (withdrawalFirst_looks burn hburn)
  · simp [withdrawalFirst] at h

/-- Two withdrawals with one key, of 1 and of 2, then a burn of 2 with that key. -/
def hiddenWithdrawal : List (Step Reference.config) :=
  Step.gnosis Reference.safeA Reference.safeA_configured
    (Reference.withdrawalTx '1' Reference.safeAddrA "1000000000000" (List.replicate 32 9)) ::
    withdrawalFirst

/-- The burn looks at the withdrawal of 1 and gives up. -/
theorem hiddenWithdrawal_not_covered : Reference.config.Distinct ∧ ¬BurnsCovered Reference.config
    (Step.run Reference.externals Reference.serde hiddenWithdrawal) := by
  refine ⟨Reference.config_distinct,fun h => ?_⟩
  have hnone := any_eq_false_of_covered h
  revert hnone
  decide +kernel

end ReserveAuditor
