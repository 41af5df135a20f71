import Dugite.Ledger.Deposits
import Dugite.Lib.Runs

/-!
# Deposits, as applied and as counted

The certificates of a transaction change the deposits of the ledger by the entries they make in the
book (`deposits_applyCertList`). Validation sums deposits and refunds over the certificates in `u64`
arithmetic, against the state before the transaction (`counts_calculate`).
-/

namespace Dugite

open Checks Prefixes FinMap DepositBook CoinView SameCoins Function

/-! ## Sums of a state -/

namespace SubStates

section
variable (s : SubStates)

/-- The deposits for stake keys, pools and DReps. -/
def deposits : Nat := s.stakeKeyDeposits + s.poolDeposits + s.drepDeposits

theorem weightAt_stakeKeyDeposits (key : Hash32) :
    s.certs.stakeKeyDeposits.weightAt id key = (s.book.deposit (.stake key)).getD 0 := by
  simp [weightAt_eq_getD, book, depositOf]

theorem weightAt_poolDeposits (poolId : Hash28) :
    s.certs.poolDeposits.weightAt id poolId = (s.book.deposit (.pool poolId)).getD 0 := by
  simp [weightAt_eq_getD, book, depositOf]

theorem weightAt_dreps (key : Hash32) :
    s.gov.dreps.weightAt (·.deposit) key = (s.book.deposit (.drep key)).getD 0 := by
  simp [weightAt_eq_getD, book, depositOf]

end

variable {s s' : SubStates}

theorem stakeKeyDeposits_congr
    (h : ∀ key, s'.book.deposit (.stake key) = s.book.deposit (.stake key)) :
    s'.stakeKeyDeposits = s.stakeKeyDeposits :=
  total_congr fun key => by
    rw [weightAt_stakeKeyDeposits, weightAt_stakeKeyDeposits, h]

theorem poolDeposits_congr (h : ∀ id, s'.book.deposit (.pool id) = s.book.deposit (.pool id)) :
    s'.poolDeposits = s.poolDeposits :=
  total_congr fun id => by rw [weightAt_poolDeposits, weightAt_poolDeposits, h]

theorem drepDeposits_congr (h : ∀ key, s'.book.deposit (.drep key) = s.book.deposit (.drep key)) :
    s'.drepDeposits = s.drepDeposits :=
  total_congr fun key => by rw [weightAt_dreps, weightAt_dreps, h]

/-- An entry in the book changes the deposits by its amount, less the one it replaces. -/
theorem deposits_of_update {account : DepositAccount} {new : Option Nat}
    (h : s'.book.deposit = update s.book.deposit account new) :
    s'.deposits + (s.book.deposit account).getD 0 = s.deposits + new.getD 0 := by
  have hother : ∀ account', account' ≠ account →
      s'.book.deposit account' = s.book.deposit account' := by
    intro account' hne
    rw [h, update_of_ne hne]
  have hnew : s'.book.deposit account = new := by rw [h, update_self]
  -- two of the maps are weighed alike, the third changes at one key
  unfold deposits
  cases account with
  | stake key =>
    have hpool := poolDeposits_congr fun id => hother (.pool id) (by simp)
    have hdrep := drepDeposits_congr fun key' => hother (.drep key') (by simp)
    have hstake : s'.stakeKeyDeposits + s.certs.stakeKeyDeposits.weightAt id key =
        s.stakeKeyDeposits + s'.certs.stakeKeyDeposits.weightAt id key :=
      total_of_weightAt_ne fun key' hne => by
        rw [weightAt_stakeKeyDeposits, weightAt_stakeKeyDeposits, hother _ (by simpa using hne)]
    rw [weightAt_stakeKeyDeposits, weightAt_stakeKeyDeposits, hnew] at hstake
    omega
  | drep key =>
    have hpool := poolDeposits_congr fun id => hother (.pool id) (by simp)
    have hstake := stakeKeyDeposits_congr fun key' => hother (.stake key') (by simp)
    have hdrep : s'.drepDeposits + s.gov.dreps.weightAt (·.deposit) key =
        s.drepDeposits + s'.gov.dreps.weightAt (·.deposit) key :=
      total_of_weightAt_ne fun key' hne => by
        rw [weightAt_dreps, weightAt_dreps, hother _ (by simpa using hne)]
    rw [weightAt_dreps, weightAt_dreps, hnew] at hdrep
    omega
  | pool poolId =>
    have hstake := stakeKeyDeposits_congr fun key' => hother (.stake key') (by simp)
    have hdrep := drepDeposits_congr fun key' => hother (.drep key') (by simp)
    have hpool : s'.poolDeposits + s.certs.poolDeposits.weightAt id poolId =
        s.poolDeposits + s'.certs.poolDeposits.weightAt id poolId :=
      total_of_weightAt_ne fun id' hne => by
        rw [weightAt_poolDeposits, weightAt_poolDeposits, hother _ (by simpa using hne)]
    rw [weightAt_poolDeposits, weightAt_poolDeposits, hnew] at hpool
    omega

theorem deposits_congr (h : s'.book.deposit = s.book.deposit) : s'.deposits = s.deposits := by
  unfold deposits
  rw [stakeKeyDeposits_congr fun key => congrFun h _, poolDeposits_congr fun id => congrFun h _,
    drepDeposits_congr fun key => congrFun h _]

theorem rewardBalances_congr (h : s'.view.balance = s.view.balance) :
    s'.rewardBalances = s.rewardBalances :=
  total_congr fun key => congrFun h key

/-- The coins of a state, with the deposits of the book in one sum. -/
theorem circulating_eq (s : SubStates) :
    s.circulating = s.utxoCoins + s.rewardBalances + s.deposits + s.proposalDeposits +
      s.utxo.epochFees + s.utxo.pendingDonations := by
  unfold circulating deposits
  omega

/-! ## The certificates of a transaction -/

variable (ctx : RuleContext)

section
variable (s : SubStates) (certificates : List Certificate)

theorem applyCertList_concat (cert : Certificate) : s.applyCertList ctx (certificates ++ [cert]) =
      (s.applyCertList ctx certificates).applyCert ctx (cert, certificates.length) := by
  unfold applyCertList
  rw [List.zipIdx_append, List.foldl_append]
  simp

theorem view_applyCertList :
    (s.applyCertList ctx certificates).view = certificates.foldl apply s.view := by
  induction certificates using List.reverseRecOn with
  | nil => rfl
  | append_singleton certificates cert ih =>
    rw [applyCertList_concat, view_applyCert, ih, List.foldl_append]
    rfl

end

end SubStates

/-- Certificates write the book and the balances, and nothing else. -/
theorem CoinView.foldl_apply (w : CoinView) (certificates : List Certificate) :
    certificates.foldl apply w = { w with
        book := w.book.after w.epochs.protocolParams certificates
        balance := (certificates.foldl apply w).balance } := by
  induction certificates generalizing w with
  | nil => rfl
  | cons cert certificates ih => exact ih (w.apply cert)

/-- Closing accounts that hold nothing changes no balance. -/
theorem CoinView.balance_foldl (w : CoinView) (certificates : List Certificate)
    (h : ∀ cert ∈ certificates, ∀ c, deregisteredCredential cert = some c →
      w.balance c.toTypedHash32 = 0) :
    (certificates.foldl apply w).balance = w.balance := by
  refine List.foldlRecOn (motive := fun w' : CoinView => w'.balance = w.balance) _ _ rfl
    fun w' hw cert hcert => ?_
  rw [← hw] at h ⊢
  unfold apply
  split
  · next c hc => rw [← h cert hcert c hc, update_eq_self]
  · rfl

namespace SubStates

variable (ctx : RuleContext) (s : SubStates)

/-- The certificates change the deposits by the entries they make. -/
theorem deposits_applyCertList (certificates : List Certificate) :
    ((s.applyCertList ctx certificates).deposits : Int) = s.deposits +
      sumAlong (fun before cert => (s.book.after s.epochs.protocolParams before).moved
        s.epochs.protocolParams cert) certificates := by
  induction certificates using List.reverseRecOn with
  | nil => simp [applyCertList]
  | append_singleton certificates cert ih =>
    have hview := view_applyCertList ctx s certificates
    have hbook : (s.applyCertList ctx certificates).book =
        s.book.after s.epochs.protocolParams certificates :=
      congrArg CoinView.book (hview.trans (CoinView.foldl_apply _ _))
    have hparams : (s.applyCertList ctx certificates).epochs = s.epochs :=
      congrArg CoinView.epochs (hview.trans (CoinView.foldl_apply _ _))
    have hstep := congrArg CoinView.book
      (view_applyCert ctx (s.applyCertList ctx certificates) (cert, certificates.length))
    rw [applyCertList_concat, sumAlong_concat]
    generalize s.book.after s.epochs.protocolParams certificates = book at hbook
    have hdeposit : ((s.applyCertList ctx certificates).applyCert ctx
        (cert, certificates.length)).book.deposit =
          (book.post s.epochs.protocolParams cert).deposit := by
      rw [← hbook, ← hparams]
      exact congrArg DepositBook.deposit hstep
    unfold post at hdeposit
    cases hposting : book.posting s.epochs.protocolParams cert with
    | none =>
      have hmoved : book.moved s.epochs.protocolParams cert = 0 := by rw [moved, hposting]
      rw [hposting, ← hbook] at hdeposit
      rw [deposits_congr hdeposit, ih, hmoved]
      omega
    | some entry =>
      obtain ⟨account, new⟩ := entry
      have hmoved : book.moved s.epochs.protocolParams cert =
          (new.getD 0 : Int) - (book.deposit account).getD 0 := by
        rw [moved, hposting]
      rw [hposting, ← hbook] at hdeposit
      have htotal := deposits_of_update hdeposit
      rw [hbook] at htotal
      omega

end SubStates

/-! ## A transaction before its proposals -/

namespace ConwayRules

variable (ctx : RuleContext) (tx : Transaction)

theorem view_updateDRepExpiriesForTx (s : SubStates) :
    (updateDRepExpiriesForTx ctx tx s).view = s.view := by
  unfold updateDRepExpiriesForTx
  generalize s.drepExpiry ctx = expiry
  induction tx.body.votingProcedures.keys generalizing s with
  | nil => rfl
  | cons voter voters ih =>
    refine (ih _).trans ?_
    cases voter with
    | drep c => exact (sameCoins_modifyDRep (by intro; rfl) _ _).view
    | _ => rfl

theorem view_updateDormantDRepExpiryForTx (s : SubStates) :
    (updateDormantDRepExpiryForTx ctx tx s).view = s.view := by
  unfold updateDormantDRepExpiryForTx
  dsimp only
  split
  · rfl
  refine view ⟨rfl, fun key => ?_⟩
  rw [lookup_mapValues, Option.map_map]
  refine congrArg (Option.map · _) (funext fun drep => ?_)
  simp only [comp_apply]
  split <;> rfl

theorem sameCoins_recordVotes (gov : GovernanceState) : SameCoins gov (recordVotes tx gov) := by
  refine foldl ?_ _ gov
  intro gov e
  exact foldl (fun gov vote =>
    (⟨rfl, fun _ => rfl⟩ : SameCoins gov (recordVote e.1 gov vote))) _ gov

variable (s : SubStates)

/-- The state when the withdrawals have their turn. -/
def beforeWithdrawals : SubStates :=
  updateDormantDRepExpiryForTx ctx tx (updateDRepExpiriesForTx ctx tx s)

theorem view_beforeWithdrawals : (beforeWithdrawals ctx tx s).view = s.view :=
  (view_updateDormantDRepExpiryForTx ctx tx _).trans (view_updateDRepExpiriesForTx ctx tx s)

theorem beforeProposals_eq : beforeProposals ctx tx s =
    (drainAccounts tx (beforeWithdrawals ctx tx s)).applyCertList ctx tx.body.certificates := rfl

theorem view_beforeProposals : (beforeProposals ctx tx s).view = { s.view with
      book := s.book.after s.epochs.protocolParams tx.body.certificates
      balance := (beforeProposals ctx tx s).view.balance } := by
  have hview := view_beforeWithdrawals ctx tx s
  have hcerts := foldl_apply (drainAccounts tx (beforeWithdrawals ctx tx s)).view
    tx.body.certificates
  rw [← SubStates.view_applyCertList ctx] at hcerts
  exact hcerts.trans (congrArg (fun w : CoinView =>
    { w with
      book := w.book.after w.epochs.protocolParams tx.body.certificates
      balance := (beforeProposals ctx tx s).view.balance }) hview)

end ConwayRules

/-! ## What validation counts -/

section Counting
variable (params : ProtocolParameters) (ctx : ValidationContext)

/-- The deposit that validation counts for a certificate. -/
def countedDeposit (book : DepositBook) : Certificate → Nat
  | .stakeRegistration _ => params.keyDeposit
  | .conwayStakeRegistration _ deposit => deposit
  | .regStakeDeleg _ _ deposit => deposit
  | .regStakeVoteDeleg _ _ _ deposit => deposit
  | .voteRegDeleg _ _ deposit => deposit
  | .regDRep _ deposit _ => deposit
  | .poolRegistration p => if book.registered p.operator then 0 else params.poolDeposit
  | _ => 0

/-- The refund that validation counts for a certificate. -/
def countedRefund : Certificate → Nat
  | .stakeDeregistration c => (storedDeposit ctx c).getD params.keyDeposit
  | .conwayStakeDeregistration _ refund => refund
  | .unregDRep _ refund => refund
  | _ => 0

/-- The running sums of validation after deposits `D` and refunds `R`, with these pools. -/
structure Counts (registered : Hash28 → Bool) (D R : Int) (sums : DepositSums) : Prop where
  deposits : (sums.deposits : Int) = D % 2 ^ 64
  refunds : (sums.refunds : Int) = R % 2 ^ 64
  pools : ∀ id, ((ctx.registeredPools.any fun pools => decide (id ∈ pools)) ||
    decide (id ∈ sums.newlyRegistered)) = registered id

variable {params ctx} {book : DepositBook}

theorem cast_wrapAdd_emod {a b : Nat} {D : Int} (h : (a : Int) = D % 2 ^ 64) :
    ((wrapAdd a b : Nat) : Int) = (D + b) % 2 ^ 64 := by
  rw [wrapAdd, Int.natCast_emod, Nat.cast_add, h, Nat.cast_pow, Nat.cast_ofNat, Int.emod_add_emod]

theorem Counts.certificate {D R : Int} {sums : DepositSums}
    (h : Counts ctx book.registered D R sums) (cert : Certificate) :
    Counts ctx (book.post params cert).registered (D + countedDeposit params book cert)
      (R + countedRefund params ctx cert) (sums.certificate params ctx cert) := by
  have hdeposit : ∀ amount : Nat,
      Counts ctx book.registered (D + amount) (R + (0 : Nat)) (sums.deposit amount) := fun amount =>
    ⟨cast_wrapAdd_emod h.deposits, by rw [Nat.cast_zero, add_zero]; exact h.refunds, h.pools⟩
  have hrefund : ∀ amount : Nat,
      Counts ctx book.registered (D + (0 : Nat)) (R + amount) (sums.refund amount) := fun amount =>
    ⟨by rw [Nat.cast_zero, add_zero]; exact h.deposits, cast_wrapAdd_emod h.refunds, h.pools⟩
  have hnone : Counts ctx book.registered (D + (0 : Nat)) (R + (0 : Nat)) sums := by simpa using h
  cases cert with
  | stakeRegistration c | conwayStakeRegistration c deposit => exact hdeposit _
  | stakeDeregistration c | conwayStakeDeregistration c refund => exact hrefund _
  | regStakeDeleg c poolHash deposit | regStakeVoteDeleg c poolHash drep deposit
  | voteRegDeleg c drep deposit | regDRep c deposit anchor => exact hdeposit _
  | unregDRep c refund => exact hrefund _
  | poolRegistration p =>
    have hpool := h.pools p.operator
    cases hregistered : book.registered p.operator with
    | true =>
      have hsame : sums.pool params ctx p.operator = sums := by
        rw [DepositSums.pool, if_pos (hpool.trans hregistered)]
      have hpost : (book.post params (.poolRegistration p)).registered = book.registered := by
        simp only [post, registersPool]
        rw [← hregistered, update_eq_self]
      rw [hpost]
      simp only [countedDeposit, countedRefund, hregistered, if_true, DepositSums.certificate, hsame]
      exact hnone
    | false =>
      have hnew : sums.pool params ctx p.operator = { sums.deposit params.poolDeposit with
            newlyRegistered := insert p.operator sums.newlyRegistered } := by
        rw [DepositSums.pool, if_neg (by rw [hpool, hregistered]; decide)]
      simp only [countedDeposit, countedRefund, hregistered, DepositSums.certificate, hnew,
        post, registersPool, Bool.false_eq_true, if_false]
      refine ⟨(hdeposit _).deposits, (hdeposit params.poolDeposit).refunds, fun id => ?_⟩
      rw [update_apply, ← h.pools id]
      by_cases hid : id = p.operator <;> simp [hid]
  | _ => exact hnone

theorem counts_calculate
    (hpools : ∀ id, (ctx.registeredPools.any fun pools => decide (id ∈ pools)) =
      book.registered id) (certificates : List Certificate) :
    Counts ctx (book.after params certificates).registered
      (sumAlong (fun before cert => countedDeposit params (book.after params before) cert)
        certificates)
      (sumAlong (fun _ cert => countedRefund params ctx cert) certificates)
      (calculateDepositsAndRefunds params ctx certificates) := by
  induction certificates using List.reverseRecOn with
  | nil => exact ⟨rfl, rfl, fun id => (Bool.or_false _).trans (hpools id)⟩
  | append_singleton certificates cert ih =>
    rw [sumAlong_concat, sumAlong_concat, calculateDepositsAndRefunds, after,
      List.foldl_append, List.foldl_append]
    exact ih.certificate cert

end Counting

end Dugite
