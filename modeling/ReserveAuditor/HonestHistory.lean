import ReserveAuditor.Confluence
import ReserveAuditor.TransferAccounting

/-! Honest histories, in which every mint has its deposit and every burn its withdrawal: nothing is
counted as a mismatch, but whichever object of a pair comes first is counted as an unexpected
error. -/
namespace ReserveAuditor
open Txn Relational Matching
open Counters (Counts within_inc)

/-! ### Attempts between objects that agree -/

section tryMatch
variable {β : Type} {objectId : Option ℕ} {precheck : Except Error Unit}
  {existing : ℕ → Db → Option String} {onExisting : Conn Unit} {find : Db → Option β}
  {check : β → Except Error Unit} {associate : ℕ → β → Conn Unit} {countError : Error → Counter}

theorem fails_tryMatch_notFound {id : ℕ} {s s' : Db} (hid : objectId = some id)
    (hp : precheck = .ok ()) (hex : existing id s = none) (hfind : find s = none)
    (hinc : (Counters.inc (countError .notFound)).Returns s () s') :
    (tryMatch objectId precheck existing onExisting find check associate countError).Fails
      s .notFound s' := by
  rw [tryMatch, Program.fails_bind]
  refine Or.inr ⟨.error .notFound,s,?_,?_⟩
  · simp [hid, hp, hex, hfind]
  · simpa only [Program.fails_bind, Program.fails_fail] using Or.inr ⟨(),s',hinc,trivial,rfl⟩

/-- Where all that can be found passes the check, an attempt records a match, or it counts that
nothing was found. -/
theorem attempt_agreed {id : ℕ} {s s' : Db} {r : Except Error β} {G : Db → Prop}
    (hid : objectId = some id) (hp : precheck = .ok ()) (hex : existing id s = none)
    (hfound : ∀ b, find s = some b → check b = .ok () ∧ ∃ t, (associate id b).Returns s () t ∧ G t)
    (hc : s.counters.isSome = true)
    (h : (tryMatch objectId precheck existing onExisting find check associate
      countError).attempt.Returns s r s') :
    G s' ∨ (Counters.inc (countError .notFound)).Returns s () s' := by
  cases hf : find s with
  | some b =>
    obtain ⟨hcheck,t,ht,hg⟩ := hfound b hf
    have hr : (tryMatch objectId precheck existing onExisting find check associate
        countError).Returns s b t :=
      (returns_tryMatch s t b).mpr ⟨id,hid,hp,hex,hf,hcheck,ht⟩
    obtain ⟨-,rfl⟩ := ((Program.returns_attempt_ok _ s t b).mpr hr).unique h
    exact Or.inl hg
  -- the other side has not arrived yet
  | none =>
    obtain ⟨row,hrow⟩ := Option.isSome_iff_exists.mp hc
    have hinc := (Counters.returns_inc (countError .notFound) s _ ()).mpr ⟨row,hrow,rfl⟩
    have hr : (tryMatch objectId precheck existing onExisting find check associate
        countError).Fails s .notFound _ := fails_tryMatch_notFound hid hp hex hf hinc
    obtain ⟨-,rfl⟩ := ((Program.returns_attempt_error _ s _ _).mpr hr).unique h
    exact Or.inr hinc

end tryMatch

/-! ### What is counted -/

/-- What is counted when two objects were compared that do not belong together. -/
def Counter.ofMismatch : Counter → Bool
  | .numMismatchingMintsAndDeposits | .numMismatchingBurnsAndWithdrawals
  | .numUnknownEthereumTokenDeposits | .numUnknownEthereumTokenWithdrawals
  | .numMintsToUnknownSafe | .numBurnsFromUnknownSafe => true
  | _ => false

/-- What is counted when an attempt to match ends in another way. -/
def Counter.ofUnexpected : Counter → Bool
  | .numUnexpectedErrorsMatchingDepositsToMints | .numUnexpectedErrorsMatchingMintsToDeposits
  | .numUnexpectedErrorsMatchingWithdrawalsToBurns | .numUnexpectedErrorsMatchingBurnsToWithdrawals =>
    true
  | _ => false

def mintErrors (s : Db) : ℕ := Counters.get s .numUnexpectedErrorsMatchingDepositsToMints+
  Counters.get s .numUnexpectedErrorsMatchingMintsToDeposits

def burnErrors (s : Db) : ℕ := Counters.get s .numUnexpectedErrorsMatchingWithdrawalsToBurns+
  Counters.get s .numUnexpectedErrorsMatchingBurnsToWithdrawals

/-- The errors and matches that are left when each mint and each deposit accounts for one. -/
def mintTally (s : Db) : ℤ :=
  mintErrors s+s.auditedMints.rows.length-s.mintTxs.rows.length-s.gnosisSafeDeposits.rows.length

/-- The errors and matches that are left when each burn and each withdrawal accounts for one. -/
def burnTally (s : Db) : ℤ :=
  burnErrors s+s.auditedBurns.rows.length-s.burnTxOuts.rows.length-s.gnosisSafeWithdrawals.rows.length

/-- No mismatch was counted, and the tallies went up as told. -/
structure Tallied (mints burns : ℤ) (s s' : Db) : Prop where
  mismatches : ∀ c : Counter, c.ofMismatch = true → Counters.get s' c = Counters.get s c
  mints : mintTally s' = mintTally s+mints
  burns : burnTally s' = burnTally s+burns

theorem Tallied.trans {m n b c : ℤ} {s s' s'' : Db} (h : Tallied m b s s') (h' : Tallied n c s' s'') :
    Tallied (m+n) (b+c) s s'' where
  mismatches k hk := (h'.mismatches k hk).trans (h.mismatches k hk)
  mints := by rw [h'.mints, h.mints, add_assoc]
  burns := by rw [h'.burns, h.burns, add_assoc]

theorem tallied_refl (s : Db) : Tallied 0 0 s s := ⟨fun _ _ => rfl,by simp,by simp⟩

variable {config : GnosisSafeConfig} {s s' : Db}

theorem get_of_inc {c : Counter} {u : Unit} (h : (Counters.inc c).Returns s u s') (d : Counter) :
    Counters.get s' d = Counters.get s d+if d = c then 1 else 0 := by
  obtain ⟨row,hrow,rfl⟩ := (Counters.returns_inc c s s' u).mp h
  by_cases hd : d = c
  · simp [Counters.get, hrow, hd]
  · simp [Counters.get, hrow, hd, Counters.bump_ne row hd]

/-- An unexpected error is one for the tally of its side. -/
theorem tallied_inc {c : Counter} (hc : c.ofUnexpected = true)
    (h : (Counters.inc c).Returns s () s') :
    Tallied (if c.ofMints then 1 else 0) (if c.ofBurns then 1 else 0) s s' := by
  have hget := get_of_inc h
  obtain ⟨row,hrow,rfl⟩ := (Counters.returns_inc c s s' ()).mp h
  refine ⟨fun d hd => ?_,?_,?_⟩
  -- what counts an unexpected error counts no mismatch
  · have hne : d ≠ c := by
      rintro rfl
      cases d <;> simp [Counter.ofUnexpected, Counter.ofMismatch] at hc hd
    simpa [hne] using hget d
  · simp only [mintTally, mintErrors, hget]
    cases c <;> simp [Counter.ofUnexpected, Counter.ofMints] at hc ⊢ <;> ring
  · simp only [burnTally, burnErrors, hget]
    cases c <;> simp [Counter.ofUnexpected, Counter.ofBurns] at hc ⊢ <;> ring

theorem errors_of_counts {p : Counter → Bool} (h : Counts p s s')
    (hp : ∀ c : Counter, c.ofUnexpected = true → p c = false) :
    mintErrors s' = mintErrors s ∧ burnErrors s' = burnErrors s := by
  constructor
  · rw [mintErrors, mintErrors, h.get (hp _ rfl), h.get (hp _ rfl)]
  · rw [burnErrors, burnErrors, h.get (hp _ rfl), h.get (hp _ rfl)]

/-- What is counted besides changes no tally. -/
theorem tallied_invalid (h : (Counters.inc .numInvalidEthereumTransactions).Returns s () s' ∨
    (Counters.inc .numInvalidMultiSigTransactions).Returns s () s') : Tallied 0 0 s s' := by
  let p : Counter → Bool := fun c => !c.ofUnexpected && !c.ofMismatch
  have hcounts : Counts p s s' := by
    rcases h with h | h
    · exact (within_inc rfl).returns h
    · exact (within_inc rfl).returns h
  obtain ⟨hmint,hburn⟩ := errors_of_counts hcounts fun c hc => by simp [p, hc]
  refine ⟨fun c hc => hcounts.get (by simp [p, hc]),?_,?_⟩
  · rcases h with h | h <;> obtain ⟨row,-,rfl⟩ := (Counters.returns_inc _ _ _ ()).mp h <;>
      simp only [mintTally, hmint, add_zero]
  · rcases h with h | h <;> obtain ⟨row,-,rfl⟩ := (Counters.returns_inc _ _ _ ()).mp h <;>
      simp only [burnTally, hburn, add_zero]

theorem tallied_mint {did mid : ℕ} {u : Unit}
    (h : (AuditedMint.associateDepositWithMint did mid).Returns s u s') : Tallied 1 0 s s' := by
  simp only [AuditedMint.associateDepositWithMint, Program.returns_bind, returns_insertInto,
    Program.returns_pure] at h
  obtain ⟨n,_,⟨t,hi,-,rfl⟩,-,rfl⟩ := h
  obtain ⟨-,-,ht⟩ := (Table.insert_eq_ok _ _ _ _).mp hi
  refine ⟨fun _ _ => rfl,?_,by simp [burnTally, burnErrors, Counters.get]⟩
  simp only [mintTally, mintErrors, Counters.get, ht, List.length_append, List.length_singleton]
  push_cast
  ring

theorem tallied_burn {wid bid : ℕ} {u : Unit}
    (h : (AuditedBurn.associateWithdrawalWithBurn wid bid).Returns s u s') : Tallied 0 1 s s' := by
  simp only [AuditedBurn.associateWithdrawalWithBurn, Program.returns_bind, returns_insertInto,
    Program.returns_pure] at h
  obtain ⟨n,_,⟨t,hi,-,rfl⟩,-,rfl⟩ := h
  obtain ⟨-,-,ht⟩ := (Table.insert_eq_ok _ _ _ _).mp hi
  refine ⟨fun _ _ => rfl,by simp [mintTally, mintErrors, Counters.get],?_⟩
  simp only [burnTally, burnErrors, Counters.get, ht, List.length_append, List.length_singleton]
  push_cast
  ring

/-! ### Objects that agree -/

/-- Stored objects with one key belong together. -/
structure Agreed (config : GnosisSafeConfig) (s : Db) : Prop where
  mints : ∀ m ∈ s.mintTxs.rows, ∀ d ∈ s.gnosisSafeDeposits.rows,
    m.nonceHex = d.expectedMcMintTxNonceHex → MintMatches config m d
  burns : ∀ b ∈ s.burnTxOuts.rows, ∀ w ∈ s.gnosisSafeWithdrawals.rows,
    b.publicKeyHex = w.mcTxOutPublicKeyHex → BurnMatches config b w

theorem attempt_matchMint_agreed (ha : Agreed config s) (hs : MintRefs s) {m : MintTx}
    (hm : m ∈ s.mintTxs.rows) (hu : MintTx.isAudited s m = false) (hc : s.counters.isSome = true)
    {r : Except Error GnosisSafeDeposit}
    (h : (AuditedMint.tryMatchMintWithDeposit m config).attempt.Returns s r s') :
    Tallied 1 0 s s' := by
  have hid : m.id = some (key m) := s.mintTxs.keyed m hm
  refine (attempt_agreed (G := Tallied 1 0 s) hid rfl ?_ ?_ hc h).elim id fun hinc =>
    tallied_inc rfl hinc
  · rw [existing_mint_iff hs]
    simpa [MintTx.isAudited, hid] using hu
  -- a deposit with this nonce passes the checks, as the sides agree
  · intro d hf
    obtain ⟨hd,hkey,-⟩ := found_of_find? hf
    obtain ⟨t,ht,-⟩ := associate_mint config hm hd
    refine ⟨(verifyDepositOfMint_eq_ok config m d ()).mpr (ha.mints m hm d hd hkey.symm),
      t,?_,tallied_mint ht⟩
    rw [show d.id = some (key d) from id_of_find? hf, unwrap_bind]
    exact ht

theorem attempt_matchDeposit_agreed (ha : Agreed config s) (hd : config.Distinct)
    {safe : AuditedSafeConfig} (hsafe : safe ∈ config.safes) (hs : MintRefs s)
    {d : GnosisSafeDeposit} (hm : d ∈ s.gnosisSafeDeposits.rows)
    (hto : (d.safeAddr == safe.safeAddr) = true) (hu : GnosisSafeDeposit.isAudited s d = false)
    (hc : s.counters.isSome = true) {r : Except Error MintTx}
    (h : (AuditedMint.tryMatchDepositWithMint d safe).attempt.Returns s r s') :
    Tallied 1 0 s s' := by
  have hid : d.id = some (key d) := s.gnosisSafeDeposits.keyed d hm
  refine (attempt_agreed (G := Tallied 1 0 s) hid (by simp [hto]) ?_ ?_ hc h).elim id fun hinc =>
    tallied_inc rfl hinc
  · rw [existing_mint_iff hs]
    simpa [GnosisSafeDeposit.isAudited, hid] using hu
  -- the deposit's safe is configured, so its check is the one that `Agreed` speaks of
  · intro m hf
    obtain ⟨hmm,hkey,-⟩ := found_of_find? hf
    obtain ⟨t,ht,-⟩ := associate_mint config hmm hm
    refine ⟨(verifyMint_of_configured hd hsafe m hto ()).mpr (ha.mints m hmm d hm hkey),t,?_,
      tallied_mint ht⟩
    rw [show m.id = some (key m) from id_of_find? hf, unwrap_bind]
    exact ht

theorem attempt_matchBurn_agreed (ha : Agreed config s) (hs : BurnRefs s) {b : BurnTxOut}
    (hb : b ∈ s.burnTxOuts.rows) (hu : BurnTxOut.isAudited s b = false)
    (hc : s.counters.isSome = true) {r : Except Error GnosisSafeWithdrawal}
    (h : (AuditedBurn.tryMatchBurnWithWithdrawal b config).attempt.Returns s r s') :
    Tallied 0 1 s s' := by
  have hid : b.id = some (key b) := s.burnTxOuts.keyed b hb
  refine (attempt_agreed (G := Tallied 0 1 s) hid rfl ?_ ?_ hc h).elim id fun hinc =>
    tallied_inc rfl hinc
  · rw [existing_burn_iff hs]
    simpa [BurnTxOut.isAudited, hid] using hu
  · intro w hf
    obtain ⟨hw,hkey,-⟩ := found_of_find? hf
    obtain ⟨t,ht,-⟩ := associate_burn config hb hw
    refine ⟨(verifyWithdrawalOfBurn_eq_ok config b w ()).mpr (ha.burns b hb w hw hkey.symm),
      t,?_,tallied_burn ht⟩
    rw [show w.id = some (key w) from id_of_find? hf, unwrap_bind]
    exact ht

theorem attempt_matchWithdrawal_agreed (ha : Agreed config s) (hd : config.Distinct)
    {safe : AuditedSafeConfig} (hsafe : safe ∈ config.safes) (hs : BurnRefs s)
    {w : GnosisSafeWithdrawal} (hw : w ∈ s.gnosisSafeWithdrawals.rows)
    (hfrom : (w.safeAddr == safe.safeAddr) = true)
    (hu : GnosisSafeWithdrawal.isAudited s w = false) (hc : s.counters.isSome = true)
    {r : Except Error BurnTxOut}
    (h : (AuditedBurn.tryMatchWithdrawalWithBurn w safe).attempt.Returns s r s') :
    Tallied 0 1 s s' := by
  have hid : w.id = some (key w) := s.gnosisSafeWithdrawals.keyed w hw
  refine (attempt_agreed (G := Tallied 0 1 s) hid (by simp [hfrom]) ?_ ?_ hc h).elim id fun hinc =>
    tallied_inc rfl hinc
  · rw [existing_burn_iff hs]
    simpa [GnosisSafeWithdrawal.isAudited, hid] using hu
  · intro b hf
    obtain ⟨hb,hkey,-⟩ := found_of_find? hf
    obtain ⟨t,ht,-⟩ := associate_burn config hb hw
    refine ⟨(verifyBurn_of_configured hd hsafe b hfrom ()).mpr (ha.burns b hb w hw hkey),t,?_,
      tallied_burn ht⟩
    rw [show b.id = some (key b) from id_of_find? hf, unwrap_bind]
    exact ht

/-! ### Objects stay -/

/-- No mint, deposit, burn or withdrawal was lost. -/
structure Kept (s s' : Db) : Prop where
  mints : s.mintTxs.rows ⊆ s'.mintTxs.rows
  deposits : s.gnosisSafeDeposits.rows ⊆ s'.gnosisSafeDeposits.rows
  burns : s.burnTxOuts.rows ⊆ s'.burnTxOuts.rows
  withdrawals : s.gnosisSafeWithdrawals.rows ⊆ s'.gnosisSafeWithdrawals.rows

theorem Kept.trans {s'' : Db} (h : Kept s s') (h' : Kept s' s'') : Kept s s'' :=
  ⟨List.Subset.trans h.mints h'.mints,List.Subset.trans h.deposits h'.deposits,
    List.Subset.trans h.burns h'.burns,List.Subset.trans h.withdrawals h'.withdrawals⟩

theorem kept_refl (s : Db) : Kept s s :=
  ⟨List.Subset.refl _,List.Subset.refl _,List.Subset.refl _,List.Subset.refl _⟩

theorem Agreed.of_kept (h : Agreed config s') (hk : Kept s s') : Agreed config s where
  mints m hm d hd := h.mints m (hk.mints hm) d (hk.deposits hd)
  burns b hb w hw := h.burns b (hk.burns hb) w (hk.withdrawals hw)

theorem DepositAdded.kept {safe : AuditedSafeConfig} {d : GnosisSafeDeposit}
    (h : DepositAdded safe s d s') : Kept s s' := by
  have hrows := h.rows
  obtain ⟨t,u,c,-,rfl⟩ := h.frame
  refine ⟨List.Subset.refl _,?_,List.Subset.refl _,List.Subset.refl _⟩
  rw [hrows]
  exact List.subset_append_left _ _

theorem DepositsAdded.kept {safe : AuditedSafeConfig} {ds : List GnosisSafeDeposit}
    (h : DepositsAdded safe s ds s') : Kept s s' := by
  induction h with
  | nil counted =>
    obtain ⟨c,-,rfl⟩ := counted
    exact ⟨List.Subset.refl _,List.Subset.refl _,List.Subset.refl _,List.Subset.refl _⟩
  | cons n _ head _ ih => exact head.kept.trans ih

theorem WithdrawalAdded.kept {safe : AuditedSafeConfig} {w : GnosisSafeWithdrawal}
    (h : WithdrawalAdded safe s w s') : Kept s s' := by
  have hrows := h.rows
  obtain ⟨t,u,c,-,rfl⟩ := h.frame
  refine ⟨List.Subset.refl _,List.Subset.refl _,List.Subset.refl _,?_⟩
  rw [hrows]
  exact List.subset_append_left _ _

theorem LedgerMoved.kept {ext : Externals} {b : BlockData} (h : LedgerMoved ext config b s s') :
    Kept s s' := by
  obtain ⟨data,s₁,hsynced,⟨t,u,c,-,rfl⟩,-,-⟩ := h.moved
  refine ⟨?_,?_,?_,?_⟩
  · exact hsynced.mints ▸ List.subset_append_left _ _
  · exact hsynced.gnosis.deposits ▸ List.Subset.refl _
  · exact hsynced.burns ▸ List.subset_append_left _ _
  · exact hsynced.gnosis.withdrawals ▸ List.Subset.refl _

/-- A step loses nothing. -/
theorem step_kept {ext : Externals} {serde : Serde} (step : Step config) (hi : Audited config s)
    (h : (step.program ext serde).Returns s () s') : Kept s s' := by
  cases step with
  | ledger b => exact (returns_syncAndAudit hi h).kept
  | gnosis safe hsafe tx =>
    obtain ⟨hash,-,⟨-,rfl⟩ | ⟨-,decoded,-,hp⟩⟩ := returns_processRawTransaction h
    · exact kept_refl _
    · cases hp with
      | deposits added _ => exact ⟨added.kept.mints,added.kept.deposits,added.kept.burns,
          added.kept.withdrawals⟩
      | withdrawal _ _ _ _ _ added => exact ⟨added.kept.mints,added.kept.deposits,added.kept.burns,
          added.kept.withdrawals⟩

/-! ### Gnosis steps -/

section gnosis
variable {safe : AuditedSafeConfig} {serde : Serde}

theorem tallied_insertDeposit {t : Table GnosisSafeDeposit} {d : GnosisSafeDeposit}
    (ht : t.rows = s.gnosisSafeDeposits.rows ++ [d]) :
    Tallied (-1) 0 s { s with gnosisSafeDeposits := t } := by
  refine ⟨fun _ _ => rfl,?_,by simp [burnTally, burnErrors, Counters.get]⟩
  simp only [mintTally, mintErrors, Counters.get, ht, List.length_append, List.length_singleton]
  push_cast
  ring

theorem tallied_insertWithdrawal {t : Table GnosisSafeWithdrawal} {w : GnosisSafeWithdrawal}
    (ht : t.rows = s.gnosisSafeWithdrawals.rows ++ [w]) :
    Tallied 0 (-1) s { s with gnosisSafeWithdrawals := t } := by
  refine ⟨fun _ _ => rfl,by simp [mintTally, mintErrors, Counters.get],?_⟩
  simp only [burnTally, burnErrors, Counters.get, ht, List.length_append, List.length_singleton]
  push_cast
  ring

/-- A new deposit is in no match. -/
theorem isAudited_insertDeposit {t : Table GnosisSafeDeposit} {d : GnosisSafeDeposit}
    (hi : Audited config s) (ht : t.rows = s.gnosisSafeDeposits.rows ++ [d]) :
    GnosisSafeDeposit.isAudited { s with gnosisSafeDeposits := t } d = false := by
  have hn : ∀ d' ∈ (mintBoard s).rights, (mintSides config).nameR d' ≠ (mintSides config).nameR d :=
    fun d' hd' => Table.id_ne_of_append ht hd' (List.mem_singleton.mpr rfl)
  exact Bool.eq_false_iff.mpr fun h =>
    Board.not_linkedR_of_fresh hi.mints hn ((mint_linkedR_iff s d).mpr h)

/-- A new withdrawal is in no match. -/
theorem isAudited_insertWithdrawal {t : Table GnosisSafeWithdrawal} {w : GnosisSafeWithdrawal}
    (hi : Audited config s) (ht : t.rows = s.gnosisSafeWithdrawals.rows ++ [w]) :
    GnosisSafeWithdrawal.isAudited { s with gnosisSafeWithdrawals := t } w = false := by
  have hn : ∀ w' ∈ (burnBoard s).rights, (burnSides config).nameR w' ≠ (burnSides config).nameR w :=
    fun w' hw' => Table.id_ne_of_append ht hw' (List.mem_singleton.mpr rfl)
  exact Bool.eq_false_iff.mpr fun h =>
    Board.not_linkedR_of_fresh hi.burns hn ((burn_linkedR_iff s w).mpr h)

theorem storeDeposit_tallied (hd : config.Distinct) (hsafe : safe ∈ config.safes)
    (hi : Audited config s) (hc : s.counters.isSome = true) {d₀ : GnosisSafeDeposit} {u : Unit}
    (hto : (d₀.safeAddr == safe.safeAddr) = true) (h : (safe.storeDeposit d₀).Returns s u s')
    (ha : Agreed config s') : Tallied 0 0 s s' := by
  simp only [AuditedSafeConfig.storeDeposit, Program.returns_bind, Program.returns_pure] at h
  obtain ⟨d,s₁,hins,r,_,h,-,rfl⟩ := h
  obtain ⟨-,n,t,hi',-,rfl,rfl⟩ := (returns_insertUnsaved _ _ _ _ _ _ _ _).mp hins
  obtain ⟨-,-,ht⟩ := (Table.insert_eq_ok _ _ _ _).mp hi'
  -- the matching stores no mint and no deposit, so the sides agreed before it too
  have ha₁ : Agreed config { s with gnosisSafeDeposits := t } := by
    obtain ⟨u,c,-,rfl⟩ := frame_matchDeposit h
    exact ⟨ha.mints,ha.burns⟩
  have hrefs := (mintRefs_of_sound hi.mints).insertDeposit ht
  exact (tallied_insertDeposit ht).trans (attempt_matchDeposit_agreed ha₁ hd hsafe hrefs
    (Table.mem_append ht) hto (isAudited_insertDeposit hi ht) hc h)

theorem storeWithdrawal_tallied (hd : config.Distinct) (hsafe : safe ∈ config.safes)
    (hi : Audited config s) (hc : s.counters.isSome = true) {w₀ : GnosisSafeWithdrawal} {u : Unit}
    (hfrom : (w₀.safeAddr == safe.safeAddr) = true) (h : (safe.storeWithdrawal w₀).Returns s u s')
    (ha : Agreed config s') : Tallied 0 0 s s' := by
  simp only [AuditedSafeConfig.storeWithdrawal, Program.returns_bind, Program.returns_pure] at h
  obtain ⟨w,s₁,hins,r,_,h,-,rfl⟩ := h
  obtain ⟨-,n,t,hi',-,rfl,rfl⟩ := (returns_insertUnsaved _ _ _ _ _ _ _ _).mp hins
  obtain ⟨-,-,ht⟩ := (Table.insert_eq_ok _ _ _ _).mp hi'
  -- as for deposits
  have ha₁ : Agreed config { s with gnosisSafeWithdrawals := t } := by
    obtain ⟨u,c,-,rfl⟩ := frame_matchWithdrawal h
    exact ⟨ha.mints,ha.burns⟩
  have hrefs := (burnRefs_of_sound hi.burns).insertWithdrawal ht
  exact (tallied_insertWithdrawal ht).trans (attempt_matchWithdrawal_agreed ha₁ hd hsafe hrefs
    (Table.mem_append ht) hfrom (isAudited_insertWithdrawal hi ht) hc h)

theorem processTransfer_tallied (hd : config.Distinct) (hsafe : safe ∈ config.safes)
    (hi : Audited config s) (hc : s.counters.isSome = true) {tx : EthereumTransaction}
    {t : EthereumTransfer} {u : Unit} (h : (safe.processTransfer tx t).Returns s u s')
    (ha : Agreed config s') : Tallied 0 0 s s' := by
  rcases AuditedSafeConfig.returns_processTransfer_iff.mp h with ⟨-,rfl⟩ | ⟨hto,d₀,hd₀,hstore⟩
  · exact tallied_refl _
  · exact storeDeposit_tallied hd hsafe hi hc (depositOfTransfer_valid hto hd₀).2.safeAddr hstore ha

theorem transfers_tallied (hd : config.Distinct) (hsafe : safe ∈ config.safes)
    {tx : EthereumTransaction} (ts : List EthereumTransfer) (hi : Audited config s)
    (hc : s.counters.isSome = true)
    (h : (∃ u, (Program.forEach ts (safe.processTransfer tx)).Returns s u s') ∨
      ∃ m, (Program.forEach ts (safe.processTransfer tx)).Fails s (.gnosis (.unknownToken m)) s')
    (ha : Agreed config s') : Tallied 0 0 s s' := by
  induction ts generalizing s with
  | nil =>
    rcases h with ⟨u,h⟩ | ⟨m,h⟩
    · rw [(Program.returns_forEach_nil _ s s' u).mp h]
      exact tallied_refl _
    · simp at h
  | cons t ts ih =>
    -- a transfer that was processed leaves the state that the rest starts from
    have step {s₁ : Db} (hone : (safe.processTransfer tx t).Returns s () s₁)
        (hrest : (∃ u, (Program.forEach ts (safe.processTransfer tx)).Returns s₁ u s') ∨
          ∃ m, (Program.forEach ts (safe.processTransfer tx)).Fails s₁ (.gnosis (.unknownToken m)) s') :
        Tallied 0 0 s s' := by
      have hi₁ : Audited config s₁ := by
        rcases returns_processTransfer hone with ⟨-,rfl⟩ | ⟨-,d₀,n,-,hvalid,hadd⟩
        · exact hi
        · exact hadd.audited hd hsafe (hvalid.withId n) hi
      have hc₁ : s₁.counters.isSome = true :=
        ((counts_processTransfer safe tx t).returns hone).isSome.trans hc
      have ha₁ : Agreed config s₁ := ha.of_kept (depositsAdded_transfers ts hrest).kept
      exact (processTransfer_tallied hd hsafe hi hc hone ha₁).trans (ih hi₁ hc₁ hrest)
    rcases h with ⟨u,h⟩ | ⟨m,h⟩
    · obtain ⟨s₁,hone,hrest⟩ := (Program.returns_forEach_cons _ _ _ s s' u).mp h
      exact step hone (Or.inl ⟨u,hrest⟩)
    · rcases (Program.fails_forEach_cons _ _ _ s s' _).mp h with hone | ⟨s₁,hone,hrest⟩
      -- the loop stops here, and the transaction is counted as invalid
      · obtain ⟨-,-,row,hrow,rfl⟩ := fails_processTransfer_unknown hone
        exact tallied_invalid (Or.inl ((Counters.returns_inc _ _ _ ()).mpr ⟨row,hrow,rfl⟩))
      · exact step hone (Or.inr ⟨m,hrest⟩)

theorem processMultiSig_tallied (hd : config.Distinct) (hsafe : safe ∈ config.safes)
    (hi : Audited config s) (hc : s.counters.isSome = true) {tx : MultiSigTransaction} {u : Unit}
    (h : (safe.processMultiSigTransaction tx).Returns s u s') (ha : Agreed config s') :
    Tallied 0 0 s s' := by
  rcases AuditedSafeConfig.returns_processMultiSigTransaction_iff.mp h with
    ⟨-,rfl⟩ | ⟨hfrom,⟨err,-,h⟩ | ⟨w₀,hw₀,hstore⟩⟩
  · exact tallied_refl _
  -- the counter of invalid transactions is in neither tally
  · exact tallied_invalid (Or.inr h)
  · have hsafe₀ : (w₀.safeAddr == safe.safeAddr) = true := by rw [(parse_safeAddr hw₀).2, hfrom]
    exact storeWithdrawal_tallied hd hsafe hi hc hsafe₀ hstore ha

/-- A Gnosis step makes one attempt for each object that it brings in. -/
theorem processRawTransaction_tallied (hd : config.Distinct) (hsafe : safe ∈ config.safes)
    (hi : Audited config s) (hc : s.counters.isSome = true) {tx : RawGnosisTransaction} {u : Unit}
    (h : (safe.processRawTransaction serde tx).Returns s u s') (ha : Agreed config s') :
    Tallied 0 0 s s' := by
  obtain ⟨hash,-,⟨-,rfl⟩ | ⟨-,decoded,-,hp⟩⟩ :=
    (returns_processRawTransaction_iff serde tx s s' u).mp h
  · exact tallied_refl _
  -- a hash that is recorded moves no tally
  · have hrecord : Tallied 0 0 s (recordHash serde tx hash s) :=
      ⟨fun _ _ => rfl,(add_zero _).symm,(add_zero _).symm⟩
    have hi₁ : Audited config (recordHash serde tx hash s) := hi.recordHash tx hash
    have hrest : Tallied 0 0 (recordHash serde tx hash s) s' := by
      cases decoded with
      | ethereum tx =>
        exact transfers_tallied hd hsafe tx.transfers hi₁ hc
          ((returns_processDecoded_ethereum tx _ s' ()).mp hp) ha
      | multiSig tx => exact processMultiSig_tallied hd hsafe hi₁ hc hp ha
      | module v =>
        obtain ⟨-,rfl⟩ := (Program.returns_pure () () _ s').mp hp
        exact tallied_refl _
    simpa using hrecord.trans hrest

end gnosis

/-! ### Ledger steps -/

section ledger
variable {ext : Externals} {b : BlockData} {data : SyncBlockData} {s₁ : Db}

/-- An audit loop makes one attempt for each of its objects, if none of them is in a match
before the loop. -/
theorem auditLoop_tallied {L R I J K γ : Type} [DecidableEq I] [DecidableEq J] [DecidableEq K]
    {S : Sides L R I J K} {board : Db → Board L R I J} {search : L → Conn γ} {m n : ℤ}
    (hsearch : ∀ l s s' r, Board.Sound S (board s) → l ∈ (board s).lefts →
      ¬(board s).LinkedL (S.nameL l) → Agreed config s → s.counters.isSome = true →
      (search l).attempt.Returns s r s' → board s' = (board s).matchLeft S l ∧
        Agreed config s' ∧ s'.counters.isSome = true ∧ Tallied m n s s')
    (ls : List L) {s s' : Db} {u : Unit} (hs : Board.Sound S (board s)) (ha : Agreed config s)
    (hc : s.counters.isSome = true) (hl : ∀ l ∈ ls, l ∈ (board s).lefts)
    (hu : ∀ l ∈ ls, ¬(board s).LinkedL (S.nameL l)) (hn : (ls.map S.nameL).Nodup)
    (h : (Program.forEach ls fun l => do
      let _ ← (search l).attempt
      pure ()).Returns s u s') : Tallied (ls.length*m) (ls.length*n) s s' := by
  induction ls generalizing s with
  | nil =>
    rw [(Program.returns_forEach_nil _ s s' u).mp h]
    simpa using tallied_refl s
  | cons l ls ih =>
    obtain ⟨s₁,hone,hrest⟩ := (Program.returns_forEach_cons _ _ _ s s' u).mp h
    simp only [Program.returns_bind, Program.returns_pure] at hone
    obtain ⟨r,_,hr,-,rfl⟩ := hone
    obtain ⟨hnot,hn'⟩ := List.nodup_cons.mp hn
    have hmem := hl l List.mem_cons_self
    obtain ⟨hb,ha₁,hc₁,hone⟩ := hsearch l s s₁ r hs hmem (hu l List.mem_cons_self) ha hc hr
    have hl₁ : ∀ x ∈ ls, x ∈ (board s₁).lefts := by
      intro x hx
      rw [hb, Board.matchLeft_lefts]
      exact hl x (List.mem_cons_of_mem l hx)
    -- the search may have linked `l`, but no other object of the loop
    have hu₁ : ∀ x ∈ ls, ¬(board s₁).LinkedL (S.nameL x) := by
      intro x hx
      have hne : S.nameL x ≠ S.nameL l := fun he => hnot (he ▸ List.mem_map_of_mem hx)
      rw [hb, Board.linkedL_matchLeft_iff l hne]
      exact hu x (List.mem_cons_of_mem l hx)
    have hall := hone.trans (ih (hb ▸ hs.matchLeft hmem) ha₁ hc₁ hl₁ hu₁ hn' hrest)
    have hlen (k : ℤ) : ((l :: ls).length : ℤ)*k = k+ls.length*k := by
      rw [List.length_cons]
      push_cast
      ring
    rw [hlen, hlen]
    exact hall

theorem auditMints_tallied (ms : List MintTx) {u : Unit}
    (hs : Board.Sound (mintSides config) (mintBoard s)) (ha : Agreed config s)
    (hc : s.counters.isSome = true) (hm : ∀ m ∈ ms, m ∈ s.mintTxs.rows)
    (hu : ∀ m ∈ ms, ¬(mintBoard s).LinkedL m.id) (hn : (ms.map MintTx.id).Nodup)
    (h : (Program.forEach ms fun mintTx => do
      let _ ← Program.attempt (AuditedMint.tryMatchMintWithDeposit mintTx config)
      pure ()).Returns s u s') : Tallied ms.length 0 s s' := by
  have hall := auditLoop_tallied (m := 1) (n := 0) ?_ ms hs ha hc hm hu hn h
  · simpa using hall
  -- one turn: the mint is linked, or an error is counted for it
  intro m s s' r hs hm hu ha hc hr
  have hrefs := mintRefs_of_sound hs
  have hu' : MintTx.isAudited s m = false :=
    Bool.eq_false_iff.mpr fun h => hu ((mint_linkedL_iff s m).mpr h)
  have htallied := attempt_matchMint_agreed ha hrefs hm hu' hc hr
  have hc' := ((Program.within_attempt (counts_matchMint m config)).returns hr).isSome.trans hc
  obtain ⟨hb,t,c,-,rfl⟩ := attempt_matchMint hrefs hm hr
  exact ⟨hb,⟨ha.mints,ha.burns⟩,hc',htallied⟩

theorem auditBurns_tallied (bs : List BurnTxOut) {u : Unit}
    (hs : Board.Sound (burnSides config) (burnBoard s)) (ha : Agreed config s)
    (hc : s.counters.isSome = true) (hm : ∀ b ∈ bs, b ∈ s.burnTxOuts.rows)
    (hu : ∀ b ∈ bs, ¬(burnBoard s).LinkedL b.id) (hn : (bs.map BurnTxOut.id).Nodup)
    (h : (Program.forEach bs fun burnTxOut => do
      let _ ← Program.attempt (AuditedBurn.tryMatchBurnWithWithdrawal burnTxOut config)
      pure ()).Returns s u s') : Tallied 0 bs.length s s' := by
  have hall := auditLoop_tallied (m := 0) (n := 1) ?_ bs hs ha hc hm hu hn h
  · simpa using hall
  intro b s s' r hs hb hu ha hc hr
  have hrefs := burnRefs_of_sound hs
  have hu' : BurnTxOut.isAudited s b = false :=
    Bool.eq_false_iff.mpr fun h => hu ((burn_linkedL_iff s b).mpr h)
  have htallied := attempt_matchBurn_agreed ha hrefs hb hu' hc hr
  have hc' := ((Program.within_attempt (counts_matchBurn b config)).returns hr).isSome.trans hc
  obtain ⟨hboard,t,c,-,rfl⟩ := attempt_matchBurn hrefs hb hr
  exact ⟨hboard,⟨ha.mints,ha.burns⟩,hc',htallied⟩

/-- What a block brings in is in no match yet. -/
theorem BlockSynced.not_linked_mints (h : BlockSynced ext b s data s₁)
    (hs : Board.Sound (mintSides config) (ReserveAuditor.mintBoard s)) :
    ∀ m ∈ data.mintTxs, ¬(ReserveAuditor.mintBoard s₁).LinkedL m.id := by
  intro m hm
  rw [h.mintBoard]
  exact Board.not_linkedL_of_fresh hs (l := m) fun x hx => Table.id_ne_of_append h.mints hx hm

theorem BlockSynced.not_linked_burns (h : BlockSynced ext b s data s₁)
    (hs : Board.Sound (burnSides config) (ReserveAuditor.burnBoard s)) :
    ∀ b ∈ data.burnTxOuts, ¬(ReserveAuditor.burnBoard s₁).LinkedL b.id := by
  intro b hb
  rw [h.burnBoard]
  exact Board.not_linkedL_of_fresh hs (l := b) fun x hx => Table.id_ne_of_append h.burns hx hb

/-- The objects of a block are stored before any attempt is made to match them. -/
theorem BlockSynced.tallied (h : BlockSynced ext b s data s₁)
    (hcounts : Counts Counter.ofLedger s s₁) :
    Tallied (-data.mintTxs.length) (-data.burnTxOuts.length) s s₁ := by
  obtain ⟨hmint,hburn⟩ := errors_of_counts hcounts fun c hc => by
    cases c <;> simp [Counter.ofUnexpected, Counter.ofLedger] at hc ⊢
  -- the new rows are unmatched and uncounted, until the loops come to them
  refine ⟨fun c hc => hcounts.get ?_,?_,?_⟩
  · cases c <;> simp [Counter.ofMismatch, Counter.ofLedger] at hc ⊢
  · simp only [mintTally, hmint, h.mints, h.gnosis.deposits, h.gnosis.auditedMints, List.length_append]
    push_cast
    ring
  · simp only [burnTally, hburn, h.burns, h.gnosis.withdrawals, h.gnosis.auditedBurns,
      List.length_append]
    push_cast
    ring

/-- A ledger step makes one attempt for each object that it brings in. -/
theorem syncAndAudit_tallied (hi : Audited config s) (hc : s.counters.isSome = true) {u : Unit}
    (h : (syncAndAudit ext (some config) b).Returns s u s') (ha : Agreed config s') :
    Tallied 0 0 s s' := by
  simp only [syncAndAudit, returns_exclusiveTransaction, Program.returns_bind, auditIfConfigured,
    auditBlockData] at h
  obtain ⟨data,s₁,hsync,_,s₂,hmints,hburns⟩ := h
  have hcounts := (counts_syncBlockWithConn ext b).returns hsync
  have hsynced := returns_syncBlockWithConn hi.refs hsync
  have hnm : (data.mintTxs.map MintTx.id).Nodup := Table.ids_nodup_of_append hsynced.mints
  have hnb : (data.burnTxOuts.map BurnTxOut.id).Nodup := Table.ids_nodup_of_append hsynced.burns
  obtain ⟨-,t,c,-,rfl⟩ := returns_auditMints data.mintTxs (hsynced.mintSound hi.mints)
    hsynced.mem_mints hmints
  have hbs : Board.Sound (burnSides config)
      (burnBoard { s₁ with auditedMints := t, counters := c }) := hsynced.burnSound hi.burns
  obtain ⟨-,t',c',-,rfl⟩ := returns_auditBurns data.burnTxOuts hbs hsynced.mem_burns hburns
  have hc₁ : s₁.counters.isSome = true := hcounts.isSome.trans hc
  have hmt := auditMints_tallied data.mintTxs (hsynced.mintSound hi.mints) ⟨ha.mints,ha.burns⟩ hc₁
    hsynced.mem_mints (hsynced.not_linked_mints hi.mints) hnm hmints
  -- the row of counters survives the loop over the mints
  have hc₂ : c.isSome = true := by
    have hw := (Program.within_forEach (fun m => Program.within_bind
      (Program.within_attempt (counts_matchMint m config)) fun _ => Program.within_pure ())
      data.mintTxs).returns hmints
    exact hw.isSome.trans hc₁
  have hbt := auditBurns_tallied data.burnTxOuts hbs ⟨ha.mints,ha.burns⟩ hc₂ hsynced.mem_burns
    (hsynced.not_linked_burns hi.burns) hnb hburns
  -- what the block took from each tally its loop has given back
  simpa using ((hsynced.tallied hcounts).trans hmt).trans hbt

end ledger

/-! ### Runs -/

section runs
variable {ext : Externals} {serde : Serde}

theorem step_tallied (hd : config.Distinct) (step : Step config) (hi : Audited config s)
    (hc : s.counters.isSome = true) (h : (step.program ext serde).Returns s () s')
    (ha : Agreed config s') : Tallied 0 0 s s' := by
  cases step with
  | ledger b => exact syncAndAudit_tallied hi hc h ha
  | gnosis safe hsafe tx => exact processRawTransaction_tallied hd hsafe hi hc h ha

theorem run_tallied (hd : config.Distinct) (steps : List (Step config))
    (ha : Agreed config (Step.run ext serde steps)) :
    Tallied 0 0 initialDb (Step.run ext serde steps) := by
  refine run_induction ext serde (I := fun t => Agreed config t → Tallied 0 0 initialDb t) steps
    (fun _ => tallied_refl _) (fun before step _ t ih h ha => ?_) ha
  have hi : Audited config (Step.run ext serde before) := audited_run hd before
  -- objects that belong together now did so when fewer were stored
  have hbefore := ih (ha.of_kept (step_kept step hi h))
  have hstep := step_tallied hd step hi (run_counters ext serde before) h ha
  simpa using hbefore.trans hstep

theorem run_kept (hd : config.Distinct) {before steps : List (Step config)}
    (hb : before <+: steps) : Kept (Step.run ext serde before) (Step.run ext serde steps) := by
  obtain ⟨rest,rfl⟩ := hb
  induction rest using List.reverseRecOn with
  | nil =>
    rw [List.append_nil]
    exact kept_refl _
  | append_singleton rest step ih =>
    rw [← List.append_assoc, run_append]
    rcases exec_cases ext serde step (Step.run ext serde (before ++ rest)) with
      h | h
    · exact ih.trans (step_kept step (audited_run hd _) h)
    -- a step that did not commit loses nothing
    · rw [h]
      exact ih

end runs

/-! ### Honest histories -/

/-- The members of two lists are paired one to one with a partner they belong to. -/
def Paired {α β : Type} (belong : α → β → Prop) (as : List α) (bs : List β) : Prop :=
  ∃ pairs : List (α × β), (pairs.map Prod.fst).Perm as ∧ (pairs.map Prod.snd).Perm bs ∧
    ∀ p ∈ pairs, belong p.1 p.2

/-- Mints are paired with deposits, and burns with withdrawals, by pairs that pass the checks. -/
structure Honest (config : GnosisSafeConfig) (s : Db) : Prop where
  mints : Paired (fun m d => AuditedMint.verifyDepositOfMint m config d = .ok ())
    s.mintTxs.rows s.gnosisSafeDeposits.rows
  burns : Paired (fun b w => AuditedBurn.verifyWithdrawalOfBurn b config w = .ok ())
    s.burnTxOuts.rows s.gnosisSafeWithdrawals.rows

theorem Paired.partner {α β : Type} {belong : α → β → Prop} {as : List α} {bs : List β}
    (h : Paired belong as bs) {b : β} (hb : b ∈ bs) : ∃ a ∈ as, belong a b := by
  obtain ⟨pairs,has,hbs,hall⟩ := h
  obtain ⟨p,hp,rfl⟩ := List.mem_map.mp (hbs.mem_iff.mpr hb)
  exact ⟨p.1,has.mem_iff.mp (List.mem_map_of_mem hp),hall p hp⟩

/-- Keys tell mints and burns apart, so that the partner is the only one with the key. -/
theorem Honest.agreed (h : Honest config s) : Agreed config s where
  mints m hm d hd hkey := by
    obtain ⟨m',hm',hv⟩ := h.mints.partner hd
    have hmatch := (verifyDepositOfMint_eq_ok config m' d ()).mp hv
    -- nonces are unique among the mints, so this is the partner itself
    obtain rfl : m = m' :=
      mint_keysL config s m hm m' hm' (hkey.trans hmatch.nonce.symm)
    exact hmatch
  burns b hb w hw hkey := by
    obtain ⟨b',hb',hv⟩ := h.burns.partner hw
    have hmatch := (verifyWithdrawalOfBurn_eq_ok config b' w ()).mp hv
    obtain rfl : b = b' := burn_keysL config s b hb b' hb' (hkey.trans hmatch.key.symm)
    exact hmatch

/-- None of the alarms of the matching was raised. -/
def Silent (s : Db) : Prop :=
  ∀ c : Counter, c.ofMismatch = true ∨ c.ofUnexpected = true → Counters.get s c = 0

/-- Nothing was brought in yet that could be matched. -/
structure NothingStored (s : Db) : Prop where
  mints : s.mintTxs.rows = []
  deposits : s.gnosisSafeDeposits.rows = []
  burns : s.burnTxOuts.rows = []
  withdrawals : s.gnosisSafeWithdrawals.rows = []

theorem NothingStored.of_kept (h : NothingStored s') (hk : Kept s s') : NothingStored s where
  mints := List.subset_nil.mp (h.mints ▸ hk.mints)
  deposits := List.subset_nil.mp (h.deposits ▸ hk.deposits)
  burns := List.subset_nil.mp (h.burns ▸ hk.burns)
  withdrawals := List.subset_nil.mp (h.withdrawals ▸ hk.withdrawals)

theorem silent_iff_errors (hm : ∀ c : Counter, c.ofMismatch = true → Counters.get s c = 0) :
    Silent s ↔ mintErrors s = 0 ∧ burnErrors s = 0 := by
  simp only [mintErrors, burnErrors, Nat.add_eq_zero_iff]
  constructor
  · intro h
    exact ⟨⟨h _ (Or.inr rfl),h _ (Or.inr rfl)⟩,h _ (Or.inr rfl),h _ (Or.inr rfl)⟩
  · rintro ⟨⟨hdm,hmd⟩,hwb,hbw⟩ c (hc | hc)
    · exact hm c hc
    · cases c <;> simp only [Counter.ofUnexpected, Bool.false_eq_true] at hc <;> assumption

theorem get_initial (c : Counter) : Counters.get initialDb c = 0 := by
  rw [initialDb_eq]
  rfl

theorem mintTally_initial : mintTally initialDb = 0 := by
  simp [mintTally, mintErrors, Counters.get, initialDb_eq, Db.empty, Table.empty]

theorem burnTally_initial : burnTally initialDb = 0 := by
  simp [burnTally, burnErrors, Counters.get, initialDb_eq, Db.empty, Table.empty]

/-- Each object costs one error or one half of a match. -/
theorem Tallied.silent_iff (h : Tallied 0 0 initialDb s) (hi : Audited config s) :
    Silent s ↔ NothingStored s := by
  have hm (c : Counter) (hc : c.ofMismatch = true) : Counters.get s c = 0 :=
    (h.mismatches c hc).trans (get_initial c)
  have hmint : mintTally s = 0 := by rw [h.mints, mintTally_initial, add_zero]
  have hburn : burnTally s = 0 := by rw [h.burns, burnTally_initial, add_zero]
  have hml := hi.mints.links_le
  have hbl := hi.burns.links_le
  simp only [mintBoard, burnBoard, List.length_map] at hml hbl
  rw [silent_iff_errors hm]
  simp only [mintTally, burnTally] at hmint hburn
  -- each tally is zero, and there are at most as many matches as objects of either side
  constructor
  · rintro ⟨he,he'⟩
    refine ⟨?_,?_,?_,?_⟩ <;> rw [← List.length_eq_zero_iff] <;> omega
  · rintro ⟨hms,hds,hbs,hws⟩
    simp only [hms, hds, hbs, hws, List.length_nil] at hmint hburn
    omega

/-- In an honest history no mismatch is ever counted. The first object that is brought in raises an
alarm all the same: its partner is not found, which is counted as an unexpected error. -/
theorem honest_run_silent_iff (ext : Externals) (serde : Serde) (config : GnosisSafeConfig)
    (hd : config.Distinct) (steps : List (Step config))
    (hhonest : Honest config (Step.run ext serde steps)) :
    (∀ before, before <+: steps →
      (∀ c : Counter, c.ofMismatch = true → Counters.get (Step.run ext serde before) c = 0) ∧
      (Silent (Step.run ext serde before) ↔ NothingStored (Step.run ext serde before))) ∧
    ((∀ before, before <+: steps → Silent (Step.run ext serde before)) ↔
      NothingStored (Step.run ext serde steps)) := by
  -- what is honest at the end was honest all along, as nothing stored is lost
  have hpoint (before : List (Step config)) (hb : before <+: steps) :
      (∀ c : Counter, c.ofMismatch = true → Counters.get (Step.run ext serde before) c = 0) ∧
      (Silent (Step.run ext serde before) ↔ NothingStored (Step.run ext serde before)) := by
    have htallied : Tallied 0 0 initialDb (Step.run ext serde before) :=
      run_tallied hd before (hhonest.agreed.of_kept (run_kept hd hb))
    exact ⟨fun c hc => (htallied.mismatches c hc).trans (get_initial c),
      htallied.silent_iff (audited_run hd before)⟩
  refine ⟨hpoint,fun h => (hpoint steps List.prefix_rfl).2.mp (h steps List.prefix_rfl),
    fun h before hb => (hpoint before hb).2.mpr (h.of_kept (run_kept hd hb))⟩

/-! ### A deposit before its mint -/

theorem paired_of_zip {α β : Type} {belong : α → β → Prop} {as : List α} {bs : List β}
    (hl : as.length = bs.length) (hall : ∀ p ∈ as.zip bs, belong p.1 p.2) : Paired belong as bs := by
  refine ⟨as.zip bs,?_,?_,hall⟩
  · rw [List.map_fst_zip hl.le]
  · rw [List.map_snd_zip hl.ge]

theorem depositFirst_run : let s := Step.run Reference.externals Reference.serde depositFirst
    s.mintTxs.rows.length = s.gnosisSafeDeposits.rows.length ∧
      ((s.mintTxs.rows.zip s.gnosisSafeDeposits.rows).all fun p =>
        (AuditedMint.verifyDepositOfMint p.1 Reference.config p.2).isOk) = true ∧
      s.burnTxOuts.rows.isEmpty = true ∧ s.gnosisSafeWithdrawals.rows.isEmpty = true ∧
      Counters.get (Step.run Reference.externals Reference.serde (depositFirst.take 1))
        .numUnexpectedErrorsMatchingDepositsToMints = 1 := by
  decide +kernel

theorem depositFirst_honest :
    Honest Reference.config (Step.run Reference.externals Reference.serde depositFirst) := by
  obtain ⟨hl,hall,hb,hw,-⟩ := depositFirst_run
  refine ⟨paired_of_zip hl fun p hp => ?_,?_⟩
  · have hok := List.all_eq_true.mp hall p hp
    exact (verifyDepositOfMint_eq_ok _ _ _ ()).mpr ((mintSides_fits _ _ _).mp hok)
  · rw [List.isEmpty_iff.mp hb, List.isEmpty_iff.mp hw]
    exact ⟨[],by simp⟩

/-- After the deposit was processed no mismatch was counted. -/
theorem depositFirst_no_mismatch :
    Counters.get (Step.run Reference.externals Reference.serde (depositFirst.take 1))
      .numMismatchingMintsAndDeposits = 0 ∧
    ((∀ before, before <+: depositFirst →
        Silent (Step.run Reference.externals Reference.serde before)) ↔
      NothingStored (Step.run Reference.externals Reference.serde depositFirst)) := by
  obtain ⟨hpoint,hall⟩ := honest_run_silent_iff Reference.externals Reference.serde Reference.config
    Reference.config_distinct depositFirst depositFirst_honest
  exact ⟨(hpoint _ (List.take_prefix 1 _)).1 _ rfl,hall⟩

/-- But the mint that it waits for was counted as an unexpected error. -/
theorem depositFirst_not_silent :
    Honest Reference.config (Step.run Reference.externals Reference.serde depositFirst) ∧
    ¬∀ before, before <+: depositFirst →
      Silent (Step.run Reference.externals Reference.serde before) := by
  refine ⟨depositFirst_honest,fun h => ?_⟩
  obtain ⟨-,-,-,-,hcount⟩ := depositFirst_run
  have hzero := h _ (List.take_prefix 1 depositFirst)
    .numUnexpectedErrorsMatchingDepositsToMints (Or.inr rfl)
  rw [hcount] at hzero
  cases hzero

end ReserveAuditor
