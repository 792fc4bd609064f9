import ReserveAuditor.AuditBoard

/-! What the matching functions do to the database: each is one search on its board. -/
namespace ReserveAuditor
open Txn Relational Matching

/-- A stored object has the id that matching unwraps. -/
theorem unwrap_bind (m : String) (n : ℕ) (f : ℕ → Conn Unit) :
    (Program.ofOutcome (.unwrap m (some n)) >>= f) = f n := by
  funext s
  rcases h : f n s with ⟨o,t,l⟩
  simp [Program.bind_run, Program.bind, Program.ofOutcome, h]

section tryMatch
variable {β : Type} {objectId : Option ℕ} {precheck : Except Error Unit}
  {existing : ℕ → Db → Option String} {onExisting : Conn Unit} {find : Db → Option β}
  {check : β → Except Error Unit} {associate : ℕ → β → Conn Unit} {countError : Error → Counter}

theorem returns_tryMatch (s s' : Db) (b : β) :
    (tryMatch objectId precheck existing onExisting find check associate countError).Returns s b s' ↔
      ∃ id, objectId = some id ∧ precheck = .ok () ∧ existing id s = none ∧ find s = some b ∧
        check b = .ok () ∧ (associate id b).Returns s () s' := by
  rw [tryMatch, Program.returns_bind]
  constructor
  · rintro ⟨r,t,hr,h⟩
    cases r with
    | error e => simp at h
    | ok a =>
      obtain ⟨rfl,rfl⟩ := (Program.returns_pure a b t s').mp h
      simp only [Program.returns_attempt_ok, Program.returns_bind, Program.returns_ofOutcome,
        Outcome.okOr_eq_ok, Program.returns_ofExcept, returns_transaction,
        Program.returns_query] at hr
      obtain ⟨id,s₁,⟨hid,h₁⟩,_,s₂,⟨hp,h₂⟩,m,s₃,⟨hm',h₃⟩,hm⟩ := hr
      subst s₁ s₂ s₃ m
      -- a match that is there already ends the transaction with an error
      cases hex : existing id s with
      | some message => simp [hex] at hm
      | none =>
        simp only [hex, Program.returns_bind, Program.returns_query, Program.returns_ofOutcome,
          Outcome.okOr_eq_ok, Program.returns_ofExcept, Program.returns_pure] at hm
        obtain ⟨_,s₁,⟨h₁,h₁'⟩,o,s₂,⟨ho,h₂⟩,_,s₃,⟨hc,h₃⟩,_,_,ha,rfl,rfl⟩ := hm
        subst s₁ s₂ s₃
        rw [h₁] at ho
        exact ⟨id,hid,hp,hex,ho,hc,ha⟩
  · rintro ⟨id,hid,hp,hex,ho,hc,ha⟩
    refine ⟨.ok b,s',?_,by simp⟩
    simp only [Program.returns_attempt_ok, Program.returns_bind, Program.returns_ofOutcome,
      Outcome.okOr_eq_ok, Program.returns_ofExcept, returns_transaction, Program.returns_query]
    refine ⟨id,s,⟨hid,rfl⟩,(),s,⟨hp,rfl⟩,none,s,⟨hex.symm,rfl⟩,?_⟩
    simp only [Program.returns_bind, Program.returns_query, Program.returns_ofOutcome,
      Outcome.okOr_eq_ok, Program.returns_ofExcept, Program.returns_pure]
    exact ⟨some b,s,⟨ho.symm,rfl⟩,b,s,⟨rfl,rfl⟩,(),s,⟨hc,rfl⟩,(),s',ha,rfl,rfl⟩

/-- Only the counters may differ, and not in what the ledger loop counts. -/
def CountFrame (s s' : Db) : Prop :=
  ∃ c, Counters.SameLedger s.counters c ∧ s' = { s with counters := c }

theorem CountFrame.refl (s : Db) : CountFrame s s := ⟨s.counters,.refl _,rfl⟩

theorem countFrame_inc {c : Counter} {s s' : Db} {u : Unit} (hc : c.ofLedger = false)
    (h : (Counters.inc c).Returns s u s') : CountFrame s s' := by
  obtain ⟨row,hrow,rfl⟩ := (Counters.returns_inc c s s' u).mp h
  refine ⟨_,?_,rfl⟩
  rw [hrow]
  exact .bump row hc

/-- An attempt that fails was rolled back, and then its error is counted if there is a row to count
in. -/
theorem fails_tryMatch_inc {s s' : Db} {e : Error}
    (h : (tryMatch objectId precheck existing onExisting find check associate countError).Fails
      s e s') : (s.counters = none ∧ s' = s) ∨ (Counters.inc (countError e)).Returns s () s' := by
  rw [tryMatch, Program.fails_bind] at h
  simp only [Program.fails_attempt, false_or] at h
  obtain ⟨r,t,hr,h⟩ := h
  cases r with
  | ok a => simp at h
  | error e' =>
    -- whichever check failed, the transaction was put back
    have ht : t = s := by
      simp only [Program.returns_attempt_error, Program.fails_bind, Program.fails_ofOutcome,
        Program.returns_ofOutcome, Program.fails_ofExcept, Program.returns_ofExcept,
        fails_transaction] at hr
      rcases hr with ⟨-,rfl⟩ | ⟨_,_,⟨-,rfl⟩,⟨-,rfl⟩ | ⟨_,_,⟨-,rfl⟩,rfl,-⟩⟩ <;> rfl
    subst ht
    simp only [Program.fails_bind, Counters.fails_inc, Program.fails_fail] at h
    rcases h with ⟨hc,-,rfl⟩ | ⟨_,_,hinc,rfl,rfl⟩
    · exact Or.inl ⟨hc,rfl⟩
    · exact Or.inr hinc

/-- A failed attempt to match is counted and changes nothing else. -/
theorem fails_tryMatch {s s' : Db} {e : Error} (hcount : ∀ e, (countError e).ofLedger = false)
    (h : (tryMatch objectId precheck existing onExisting find check associate countError).Fails
      s e s') : CountFrame s s' := by
  rcases fails_tryMatch_inc h with ⟨-,rfl⟩ | hinc
  · exact .refl s'
  · exact countFrame_inc (hcount e) hinc

/-- An attempt to match either finds a partner that passes all checks, or it only counts the
reason why there is none. -/
theorem attempt_tryMatch {id : ℕ} {s s' : Db} {r : Except Error β} {linked : Prop}
    {G : β → Db → Prop} (hid : objectId = some id) (hp : precheck = .ok ())
    (hex : existing id s = none ↔ ¬linked)
    (hassoc : ∀ b, find s = some b → ∃ t, (associate id b).Returns s () t ∧ G b t)
    (hcount : ∀ e, (countError e).ofLedger = false)
    (h : (tryMatch objectId precheck existing onExisting find check associate
      countError).attempt.Returns s r s') :
    (∃ b, ¬linked ∧ find s = some b ∧ check b = .ok () ∧ G b s') ∨
    ((∀ b, ¬linked → find s = some b → check b ≠ .ok ()) ∧ CountFrame s s') := by
  cases r with
  | ok b =>
    obtain ⟨id',hid',-,hnone,hf,hc,ha⟩ :=
      (returns_tryMatch s s' b).mp ((Program.returns_attempt_ok _ s s' b).mp h)
    obtain rfl : id = id' := Option.some.inj (hid.symm.trans hid')
    obtain ⟨t,ht,hg⟩ := hassoc b hf
    obtain ⟨-,rfl⟩ := ht.unique ha
    exact Or.inl ⟨b,hex.mp hnone,hf,hc,hg⟩
  | error e =>
    -- had there been a partner that passes, the call would have returned
    have hfail := (Program.returns_attempt_error _ s s' e).mp h
    refine Or.inr ⟨fun b hl hf hc => ?_,fails_tryMatch hcount hfail⟩
    obtain ⟨t,ht,-⟩ := hassoc b hf
    exact ((returns_tryMatch s t b).mpr ⟨id,hid,hp,hex.mpr hl,hf,hc,ht⟩).not_fails hfail

end tryMatch

section search
variable {L R K : Type} [DecidableEq K] {S : Sides L R (Option ℕ) (Option ℕ) K}
  {b : Board L R (Option ℕ) (Option ℕ)}

/-- An attempt to match that looks at the right member a search from `l` would look at. -/
theorem search_left {l : L} {check : R → Except Error Unit} {s s' : Db}
    {board : Db → Board L R (Option ℕ) (Option ℕ)} {Frame : Db → Prop}
    (hcheck : ∀ r, check r = .ok () ↔ S.fits l r = true)
    (hcount : ∀ s', CountFrame s s' → board s' = board s ∧ Frame s')
    (h : (∃ r, ¬(board s).LinkedL (S.nameL l) ∧ (board s).candidateR S (S.keyL l) = some r ∧
        check r = .ok () ∧ board s' = (board s).link S l r ∧ Frame s') ∨
      ((∀ r, ¬(board s).LinkedL (S.nameL l) → (board s).candidateR S (S.keyL l) = some r →
        check r ≠ .ok ()) ∧ CountFrame s s')) :
    board s' = (board s).matchLeft S l ∧ Frame s' := by
  rcases h with ⟨r,hul,hc,hok,hb,hf⟩ | ⟨hno,hc⟩
  · exact ⟨hb.trans (Board.matchLeft_of_candidate hul hc ((hcheck r).mp hok)).symm,hf⟩
  · refine ⟨(hcount s' hc).1.trans ?_,(hcount s' hc).2⟩
    -- no partner passed the check, so the search of the board makes no link either
    rcases Board.matchLeft_cases S (board s) l with he | ⟨r,hc,hul,hf,-⟩
    · exact he.symm
    · exact (hno r hul hc ((hcheck r).mpr hf)).elim

/-- An attempt to match that looks at the left member a search from `r` would look at. -/
theorem search_right {r : R} {check : L → Except Error Unit} {s s' : Db}
    {board : Db → Board L R (Option ℕ) (Option ℕ)} {Frame : Db → Prop}
    (hcheck : ∀ l, check l = .ok () ↔ S.fits l r = true)
    (hcount : ∀ s', CountFrame s s' → board s' = board s ∧ Frame s')
    (h : (∃ l, ¬(board s).LinkedR (S.nameR r) ∧ (board s).candidateL S (S.keyR r) = some l ∧
        check l = .ok () ∧ board s' = (board s).link S l r ∧ Frame s') ∨
      ((∀ l, ¬(board s).LinkedR (S.nameR r) → (board s).candidateL S (S.keyR r) = some l →
        check l ≠ .ok ()) ∧ CountFrame s s')) :
    board s' = (board s).matchRight S r ∧ Frame s' := by
  rcases h with ⟨l,hur,hc,hok,hb,hf⟩ | ⟨hno,hc⟩
  · exact ⟨hb.trans (Board.matchRight_of_candidate hur hc ((hcheck l).mp hok)).symm,hf⟩
  · refine ⟨(hcount s' hc).1.trans ?_,(hcount s' hc).2⟩
    rcases Board.matchRight_cases S (board s) r with he | ⟨l,hc,hur,hf,-⟩
    · exact he.symm
    · exact (hno l hur hc ((hcheck l).mpr hf)).elim

end search

/-! ### Mints and deposits -/

theorem mem_withMintAndDeposit (s : Db) (p : AuditedMint × MintTx × GnosisSafeDeposit) :
    p ∈ AuditedMint.withMintAndDeposit s ↔ p.1 ∈ s.auditedMints.rows ∧
      s.mintTxs.find p.1.mintTxId = some p.2.1 ∧
      s.gnosisSafeDeposits.find p.1.gnosisSafeDepositId = some p.2.2 := by
  obtain ⟨a,m,d⟩ := p
  simp only [AuditedMint.withMintAndDeposit, List.mem_filterMap, Option.bind_eq_bind,
    Option.bind_eq_some_iff, Option.pure_def, Option.some.injEq, Prod.mk.injEq]
  constructor
  · rintro ⟨a',ha,m',hm,d',hd,rfl,rfl,rfl⟩
    exact ⟨ha,hm,hd⟩
  · rintro ⟨ha,hm,hd⟩
    exact ⟨a,ha,m,hm,d,hd,rfl,rfl,rfl⟩

theorem mint_linkedL_iff (s : Db) (m : MintTx) :
    (mintBoard s).LinkedL m.id ↔ MintTx.isAudited s m = true := by
  simp [Board.LinkedL, mintBoard, MintTx.isAudited]

theorem mint_linkedR_iff (s : Db) (d : GnosisSafeDeposit) :
    (mintBoard s).LinkedR d.id ↔ GnosisSafeDeposit.isAudited s d = true := by
  simp [Board.LinkedR, mintBoard, GnosisSafeDeposit.isAudited]

theorem mint_candidateR (config : GnosisSafeConfig) (s : Db) (nonceHex : String) :
    (mintBoard s).candidateR (mintSides config) nonceHex =
      GnosisSafeDeposit.findUnauditedDepositByNonce nonceHex s := by
  apply List.find?_congr
  intro d _
  change (_ && !decide ((mintBoard s).LinkedR d.id)) = _
  simp only [mint_linkedR_iff, Bool.decide_eq_true]
  rfl

theorem mint_candidateL (config : GnosisSafeConfig) (s : Db) (nonceHex : String) :
    (mintBoard s).candidateL (mintSides config) nonceHex =
      MintTx.findUnauditedMintTxByNonce nonceHex s := by
  apply List.find?_congr
  intro m _
  change (_ && !decide ((mintBoard s).LinkedL m.id)) = _
  simp only [mint_linkedL_iff, Bool.decide_eq_true]
  rfl

/-- Every row of `audited_mints` refers to a mint and a deposit. -/
def MintRefs (s : Db) : Prop := ∀ a ∈ s.auditedMints.rows,
  (∃ m, s.mintTxs.find a.mintTxId = some m) ∧
    ∃ d, s.gnosisSafeDeposits.find a.gnosisSafeDepositId = some d

variable {config : GnosisSafeConfig} {s s' : Db}

theorem mintRefs_of_sound (hs : Board.Sound (mintSides config) (mintBoard s)) : MintRefs s := by
  intro a ha
  obtain ⟨⟨m,hm,hma⟩,d,hd,hda⟩ := hs.refs _ (List.mem_map_of_mem ha)
  exact ⟨⟨m,(Table.find_eq_some _ _ _).mpr ⟨hm,hma⟩⟩,d,(Table.find_eq_some _ _ _).mpr ⟨hd,hda⟩⟩

/-- A deposit more takes nothing away that a match refers to. -/
theorem MintRefs.insertDeposit (hr : MintRefs s) {t : Table GnosisSafeDeposit}
    {d : GnosisSafeDeposit} (ht : t.rows = s.gnosisSafeDeposits.rows ++ [d]) :
    MintRefs { s with gnosisSafeDeposits := t } := by
  intro a ha
  obtain ⟨hm,x,hx⟩ := hr a ha
  exact ⟨hm,x,Table.find_append ht hx⟩

/-- The code looks for an existing match in a join, which misses no row. -/
theorem existing_mint_iff (hs : MintRefs s) (f : AuditedMint → ℕ) (id : ℕ)
    (message : AuditedMint × MintTx × GnosisSafeDeposit → String) :
    ((AuditedMint.withMintAndDeposit s).find? (fun p => decide (f p.1 = id))).map message = none ↔
      ¬∃ a ∈ s.auditedMints.rows, f a = id := by
  rw [Option.map_eq_none_iff, List.find?_eq_none]
  constructor
  · rintro h ⟨a,ha,hid⟩
    obtain ⟨⟨m,hm⟩,d,hd⟩ := hs a ha
    exact h (a,m,d) ((mem_withMintAndDeposit s _).mpr ⟨ha,hm,hd⟩) (by simpa using hid)
  · intro h p hp hid
    exact h ⟨p.1,((mem_withMintAndDeposit s p).mp hp).1,by simpa using hid⟩

/-- What a match between mints and deposits writes. -/
def MintFrame (s s' : Db) : Prop := ∃ t c, Counters.SameLedger s.counters c ∧
  s' = { s with auditedMints := t, counters := c }

/-- Recording a match of two stored objects links them. -/
theorem associate_mint (config : GnosisSafeConfig) {m : MintTx} {d : GnosisSafeDeposit}
    (hm : m ∈ s.mintTxs.rows) (hd : d ∈ s.gnosisSafeDeposits.rows) : ∃ t,
      (AuditedMint.associateDepositWithMint (key d) (key m)).Returns s () t ∧
      mintBoard t = (mintBoard s).link (mintSides config) m d ∧ MintFrame s t := by
  have hmid := s.mintTxs.keyed m hm
  have hdid := s.gnosisSafeDeposits.keyed d hd
  have hmf := (Table.find_eq_some _ _ _).mpr ⟨hm,hmid⟩
  have hdf := (Table.find_eq_some _ _ _).mpr ⟨hd,hdid⟩
  let t := s.auditedMints.append ⟨none,key m,key d⟩ fun _ _ => rfl
  refine ⟨{ s with auditedMints := t },?_,?_,t,s.counters,.refl _,rfl⟩
  · simp only [AuditedMint.associateDepositWithMint, Program.returns_bind, returns_insertInto,
      Table.insert_eq_ok, Program.returns_pure]
    exact ⟨_,_,⟨t,⟨fun _ _ => rfl,rfl,rfl⟩,by simp [hmf, hdf],rfl⟩,trivial,rfl⟩
  · change Board.mk _ _ _ = Board.mk _ _ _
    have hmn : (mintSides config).nameL m = some (key m) := hmid
    have hdn : (mintSides config).nameR d = some (key d) := hdid
    simp [t, Table.append, Record.withId, mintBoard, hmn, hdn]

/-- Matching a stored mint is a search from the left. -/
theorem attempt_matchMint (hs : MintRefs s) {m : MintTx} (hm : m ∈ s.mintTxs.rows)
    {r : Except Error GnosisSafeDeposit}
    (h : (AuditedMint.tryMatchMintWithDeposit m config).attempt.Returns s r s') :
    mintBoard s' = (mintBoard s).matchLeft (mintSides config) m ∧ MintFrame s s' := by
  have hid : m.id = some (key m) := s.mintTxs.keyed m hm
  refine search_left (fun d => (verifyDepositOfMint_eq_ok config m d ()).trans
    (mintSides_fits config m d).symm) (fun _ ⟨c,hc,hs'⟩ => hs' ▸ ⟨rfl,_,c,hc,rfl⟩) ?_
  rw [show (mintSides config).keyL m = m.nonceHex from rfl, mint_candidateR]
  refine attempt_tryMatch (G := fun d t => mintBoard t = (mintBoard s).link (mintSides config) m d ∧
    MintFrame s t) hid rfl ?_ ?_ (by intro e; cases e <;> rfl) h
  · rw [existing_mint_iff hs]
    refine not_congr (Iff.trans ?_ (mint_linkedL_iff s m).symm)
    simp [MintTx.isAudited, hid]
  · intro d hf
    have hd : d ∈ s.gnosisSafeDeposits.rows := List.mem_of_find?_eq_some hf
    obtain ⟨t,ht,hb⟩ := associate_mint config hm hd
    refine ⟨t,?_,hb⟩
    rw [show d.id = some (key d) from id_of_find? hf, unwrap_bind]
    exact ht

/-- Matching a stored deposit into a configured safe is a search from the right. -/
theorem attempt_matchDeposit (hd : config.Distinct) {safe : AuditedSafeConfig}
    (hsafe : safe ∈ config.safes) (hs : MintRefs s) {d : GnosisSafeDeposit}
    (hm : d ∈ s.gnosisSafeDeposits.rows) (ha : (d.safeAddr == safe.safeAddr) = true)
    {r : Except Error MintTx}
    (h : (AuditedMint.tryMatchDepositWithMint d safe).attempt.Returns s r s') :
    mintBoard s' = (mintBoard s).matchRight (mintSides config) d ∧ MintFrame s s' := by
  have hid : d.id = some (key d) := s.gnosisSafeDeposits.keyed d hm
  refine search_right (fun m => (verifyMint_of_configured hd hsafe m ha ()).trans
    (mintSides_fits config m d).symm) (fun _ ⟨c,hc,hs'⟩ => hs' ▸ ⟨rfl,_,c,hc,rfl⟩) ?_
  rw [show (mintSides config).keyR d = d.expectedMcMintTxNonceHex from rfl, mint_candidateL]
  refine attempt_tryMatch (G := fun m t => mintBoard t = (mintBoard s).link (mintSides config) m d ∧
    MintFrame s t) hid (by simp [ha]) ?_ ?_ (by intro e; cases e <;> rfl) h
  · rw [existing_mint_iff hs]
    refine not_congr (Iff.trans ?_ (mint_linkedR_iff s d).symm)
    simp [GnosisSafeDeposit.isAudited, hid]
  · intro m hf
    have hmm : m ∈ s.mintTxs.rows := List.mem_of_find?_eq_some hf
    obtain ⟨t,ht,hb⟩ := associate_mint config hmm hm
    refine ⟨t,?_,hb⟩
    rw [show m.id = some (key m) from id_of_find? hf, unwrap_bind]
    exact ht

/-! ### Burns and withdrawals -/

theorem mem_withBurnAndWithdrawal (s : Db) (p : AuditedBurn × BurnTxOut × GnosisSafeWithdrawal) :
    p ∈ AuditedBurn.withBurnAndWithdrawal s ↔ p.1 ∈ s.auditedBurns.rows ∧
      s.burnTxOuts.find p.1.burnTxOutId = some p.2.1 ∧
      s.gnosisSafeWithdrawals.find p.1.gnosisSafeWithdrawalId = some p.2.2 := by
  obtain ⟨a,b,w⟩ := p
  simp only [AuditedBurn.withBurnAndWithdrawal, List.mem_filterMap, Option.bind_eq_bind,
    Option.bind_eq_some_iff, Option.pure_def, Option.some.injEq, Prod.mk.injEq]
  constructor
  · rintro ⟨a',ha,b',hb,w',hw,rfl,rfl,rfl⟩
    exact ⟨ha,hb,hw⟩
  · rintro ⟨ha,hb,hw⟩
    exact ⟨a,ha,b,hb,w,hw,rfl,rfl,rfl⟩

theorem burn_linkedL_iff (s : Db) (b : BurnTxOut) :
    (burnBoard s).LinkedL b.id ↔ BurnTxOut.isAudited s b = true := by
  simp [Board.LinkedL, burnBoard, BurnTxOut.isAudited]

theorem burn_linkedR_iff (s : Db) (w : GnosisSafeWithdrawal) :
    (burnBoard s).LinkedR w.id ↔ GnosisSafeWithdrawal.isAudited s w = true := by
  simp [Board.LinkedR, burnBoard, GnosisSafeWithdrawal.isAudited]

theorem burn_candidateR (config : GnosisSafeConfig) (s : Db) (publicKeyHex : String) :
    (burnBoard s).candidateR (burnSides config) publicKeyHex =
      GnosisSafeWithdrawal.findUnauditedWithdrawalByPublicKey publicKeyHex s := by
  apply List.find?_congr
  intro w _
  change (_ && !decide ((burnBoard s).LinkedR w.id)) = _
  simp only [burn_linkedR_iff, Bool.decide_eq_true]
  rfl

theorem burn_candidateL (config : GnosisSafeConfig) (s : Db) (publicKeyHex : String) :
    (burnBoard s).candidateL (burnSides config) publicKeyHex =
      BurnTxOut.findUnauditedBurnTxOutByPublicKey publicKeyHex s := by
  apply List.find?_congr
  intro b _
  change (_ && !decide ((burnBoard s).LinkedL b.id)) = _
  simp only [burn_linkedL_iff, Bool.decide_eq_true]
  rfl

/-- Every row of `audited_burns` refers to a burn and a withdrawal. -/
def BurnRefs (s : Db) : Prop := ∀ a ∈ s.auditedBurns.rows,
  (∃ b, s.burnTxOuts.find a.burnTxOutId = some b) ∧
    ∃ w, s.gnosisSafeWithdrawals.find a.gnosisSafeWithdrawalId = some w

theorem burnRefs_of_sound (hs : Board.Sound (burnSides config) (burnBoard s)) : BurnRefs s := by
  intro a ha
  obtain ⟨⟨b,hb,hba⟩,w,hw,hwa⟩ := hs.refs _ (List.mem_map_of_mem ha)
  exact ⟨⟨b,(Table.find_eq_some _ _ _).mpr ⟨hb,hba⟩⟩,w,(Table.find_eq_some _ _ _).mpr ⟨hw,hwa⟩⟩

theorem BurnRefs.insertWithdrawal (hr : BurnRefs s) {t : Table GnosisSafeWithdrawal}
    {w : GnosisSafeWithdrawal} (ht : t.rows = s.gnosisSafeWithdrawals.rows ++ [w]) :
    BurnRefs { s with gnosisSafeWithdrawals := t } := by
  intro a ha
  obtain ⟨hb,x,hx⟩ := hr a ha
  exact ⟨hb,x,Table.find_append ht hx⟩

/-- The code looks for an existing match in a join, which misses no row. -/
theorem existing_burn_iff (hs : BurnRefs s) (f : AuditedBurn → ℕ) (id : ℕ)
    (message : AuditedBurn × BurnTxOut × GnosisSafeWithdrawal → String) :
    ((AuditedBurn.withBurnAndWithdrawal s).find? (fun p => decide (f p.1 = id))).map message =
      none ↔ ¬∃ a ∈ s.auditedBurns.rows, f a = id := by
  rw [Option.map_eq_none_iff, List.find?_eq_none]
  constructor
  · rintro h ⟨a,ha,hid⟩
    obtain ⟨⟨b,hb⟩,w,hw⟩ := hs a ha
    exact h (a,b,w) ((mem_withBurnAndWithdrawal s _).mpr ⟨ha,hb,hw⟩) (by simpa using hid)
  · intro h p hp hid
    exact h ⟨p.1,((mem_withBurnAndWithdrawal s p).mp hp).1,by simpa using hid⟩

/-- What a match between burns and withdrawals writes. -/
def BurnFrame (s s' : Db) : Prop := ∃ t c, Counters.SameLedger s.counters c ∧
  s' = { s with auditedBurns := t, counters := c }

/-- Recording a match of two stored objects links them. -/
theorem associate_burn (config : GnosisSafeConfig) {b : BurnTxOut} {w : GnosisSafeWithdrawal}
    (hb : b ∈ s.burnTxOuts.rows) (hw : w ∈ s.gnosisSafeWithdrawals.rows) : ∃ t,
      (AuditedBurn.associateWithdrawalWithBurn (key w) (key b)).Returns s () t ∧
      burnBoard t = (burnBoard s).link (burnSides config) b w ∧ BurnFrame s t := by
  have hbid := s.burnTxOuts.keyed b hb
  have hwid := s.gnosisSafeWithdrawals.keyed w hw
  have hbf := (Table.find_eq_some _ _ _).mpr ⟨hb,hbid⟩
  have hwf := (Table.find_eq_some _ _ _).mpr ⟨hw,hwid⟩
  let t := s.auditedBurns.append ⟨none,key b,key w⟩ fun _ _ => rfl
  refine ⟨{ s with auditedBurns := t },?_,?_,t,s.counters,.refl _,rfl⟩
  · simp only [AuditedBurn.associateWithdrawalWithBurn, Program.returns_bind, returns_insertInto,
      Table.insert_eq_ok, Program.returns_pure]
    exact ⟨_,_,⟨t,⟨fun _ _ => rfl,rfl,rfl⟩,by simp [hbf, hwf],rfl⟩,trivial,rfl⟩
  · change Board.mk _ _ _ = Board.mk _ _ _
    have hbn : (burnSides config).nameL b = some (key b) := hbid
    have hwn : (burnSides config).nameR w = some (key w) := hwid
    simp [t, Table.append, Record.withId, burnBoard, hbn, hwn]

/-- Matching a stored burn is a search from the left. -/
theorem attempt_matchBurn (hs : BurnRefs s) {b : BurnTxOut} (hb : b ∈ s.burnTxOuts.rows)
    {r : Except Error GnosisSafeWithdrawal}
    (h : (AuditedBurn.tryMatchBurnWithWithdrawal b config).attempt.Returns s r s') :
    burnBoard s' = (burnBoard s).matchLeft (burnSides config) b ∧ BurnFrame s s' := by
  have hid : b.id = some (key b) := s.burnTxOuts.keyed b hb
  refine search_left (fun w => (verifyWithdrawalOfBurn_eq_ok config b w ()).trans
    (burnSides_fits config b w).symm) (fun _ ⟨c,hc,hs'⟩ => hs' ▸ ⟨rfl,_,c,hc,rfl⟩) ?_
  rw [show (burnSides config).keyL b = b.publicKeyHex from rfl, burn_candidateR]
  refine attempt_tryMatch (G := fun w t => burnBoard t = (burnBoard s).link (burnSides config) b w ∧
    BurnFrame s t) hid rfl ?_ ?_ (by intro e; cases e <;> rfl) h
  · rw [existing_burn_iff hs]
    refine not_congr (Iff.trans ?_ (burn_linkedL_iff s b).symm)
    simp [BurnTxOut.isAudited, hid]
  · intro w hf
    have hw : w ∈ s.gnosisSafeWithdrawals.rows := List.mem_of_find?_eq_some hf
    obtain ⟨t,ht,hl⟩ := associate_burn config hb hw
    refine ⟨t,?_,hl⟩
    rw [show w.id = some (key w) from id_of_find? hf, unwrap_bind]
    exact ht

/-- Matching a stored withdrawal from a configured safe is a search from the right. -/
theorem attempt_matchWithdrawal (hd : config.Distinct) {safe : AuditedSafeConfig}
    (hsafe : safe ∈ config.safes) (hs : BurnRefs s) {w : GnosisSafeWithdrawal}
    (hw : w ∈ s.gnosisSafeWithdrawals.rows) (ha : (w.safeAddr == safe.safeAddr) = true)
    {r : Except Error BurnTxOut}
    (h : (AuditedBurn.tryMatchWithdrawalWithBurn w safe).attempt.Returns s r s') :
    burnBoard s' = (burnBoard s).matchRight (burnSides config) w ∧ BurnFrame s s' := by
  have hid : w.id = some (key w) := s.gnosisSafeWithdrawals.keyed w hw
  refine search_right (fun b => (verifyBurn_of_configured hd hsafe b ha ()).trans
    (burnSides_fits config b w).symm) (fun _ ⟨c,hc,hs'⟩ => hs' ▸ ⟨rfl,_,c,hc,rfl⟩) ?_
  rw [show (burnSides config).keyR w = w.mcTxOutPublicKeyHex from rfl, burn_candidateL]
  refine attempt_tryMatch (G := fun b t => burnBoard t = (burnBoard s).link (burnSides config) b w ∧
    BurnFrame s t) hid (by simp [ha]) ?_ ?_ (by intro e; cases e <;> rfl) h
  · rw [existing_burn_iff hs]
    refine not_congr (Iff.trans ?_ (burn_linkedR_iff s w).symm)
    simp [GnosisSafeWithdrawal.isAudited, hid]
  · intro b hf
    have hb : b ∈ s.burnTxOuts.rows := List.mem_of_find?_eq_some hf
    obtain ⟨t,ht,hl⟩ := associate_burn config hb hw
    refine ⟨t,?_,hl⟩
    rw [show b.id = some (key b) from id_of_find? hf, unwrap_bind]
    exact ht

end ReserveAuditor
