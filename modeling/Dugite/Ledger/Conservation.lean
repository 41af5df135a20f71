import Dugite.Ledger.DepositSums
import Dugite.Ledger.UtxoDiff
import Dugite.Validation.Authorisation

/-!
# A valid transaction and the coins of the ledger

Validation balances a transaction against the state before it: inputs, withdrawals and refunds
against outputs, fee, deposits and donation. Application runs the certificates one after the other
and keeps deposits, balances, outputs and proposals in maps. `surplus` is the difference between
what validation counts and what application moves, cause by cause; `valid_tx_conserves_iff` says
that an accepted transaction leaves the coins of the ledger unchanged exactly when it is zero.
-/

namespace Dugite

open Checks Prefixes FinMap List SubStates ConwayRules CoinView DepositBook Nat BitVec

/-- Everything a state tells the validation of a transaction. -/
def fullContext (s : SubStates) (net : NetworkId) : ValidationContext where
  registeredPools := some s.certs.poolParams.keys
  rewardAccounts := some s.certs.rewardAccounts
  registeredDreps := some s.gov.dreps.keys
  drepDeposits := some (s.gov.dreps.mapValues (·.deposit))
  nodeNetwork := some net
  stakeKeyDeposits := some s.certs.stakeKeyDeposits
  activeProposals := some (s.gov.proposals.mapValues (·.procedure.govAction))
  enactedGovRoots := some s.gov.enacted

/-! ## The surplus -/

/-- The deposit that a certificate takes off the book: the one on record for the account that it
writes. -/
def DepositBook.released (params : ProtocolParameters) (book : DepositBook) (cert : Certificate) :
    Nat :=
  match book.posting params cert with
  | some (account, _) => (book.deposit account).getD 0
  | none => 0

/-- The accounts that the withdrawals name, each once. -/
def withdrawnAccounts (tx : Transaction) : Finset Hash32 :=
  (tx.body.withdrawals.keys.map rewardAccountToHash).toFinset

/-- The proposals of a transaction with their ids and deposits. -/
def openedDeposits (tx : Transaction) : List (GovActionId × Nat) :=
  tx.body.proposalProcedures.zipIdx.map fun e => (actionId tx e.2, e.1.deposit)

/-- The deposits of the open proposals. -/
def SubStates.openDeposits (s : SubStates) : FinMap GovActionId Nat :=
  s.gov.proposals.mapValues (·.procedure.deposit)

section Surplus
variable (ctx : ValidationContext) (tx : Transaction) (s : SubStates)

/-- The deposits of all certificates, as validation counts them but without overflow. -/
def depositsCounted : Int :=
  sumAlong (fun before cert => countedDeposit s.epochs.protocolParams
    (s.book.after s.epochs.protocolParams before) cert) tx.body.certificates

/-- The refunds of all certificates, as validation counts them but without overflow. -/
def refundsCounted : Int :=
  sumAlong (fun _ cert => countedRefund s.epochs.protocolParams ctx cert) tx.body.certificates

/-- What the withdrawals claim, less what the accounts they name hold. An account that two keys
name is claimed twice and drained once. -/
def withdrawalSurplus : Int :=
  (tx.body.withdrawals.values.sum : Int) -
    (∑ key ∈ withdrawnAccounts tx, s.certs.rewardAccounts.weightAt id key : Nat)

/-- The refunds that are counted, less the deposits that are on record when their turn comes. -/
def certificateSurplus : Int :=
  sumAlong (fun before cert => (countedRefund s.epochs.protocolParams ctx cert : Int) -
    (s.book.after s.epochs.protocolParams before).released s.epochs.protocolParams cert)
    tx.body.certificates

/-- The deposits beyond `u64`, which are not paid, less the refunds beyond it. -/
def overflowSurplus : Int :=
  (depositsCounted tx s - depositsCounted tx s % 2 ^ 64) -
    (refundsCounted ctx tx s - refundsCounted ctx tx s % 2 ^ 64)

/-- The coins of unspent outputs that the outputs of the transaction replace. -/
def outputsReplaced : Nat :=
  (removeInputs tx.body.inputs s.utxo.utxoSet).replaced (·.value.coin)
    (keyedOutputs tx.hash tx.body.outputs)

/-- The deposits of proposals that the proposals of the transaction replace. -/
def proposalsReplaced : Nat := s.openDeposits.replaced id (openedDeposits tx)

/-- What the pots of fees and donations do not take beyond `u64`. -/
def potsCut : Nat :=
  (s.utxo.epochFees + tx.body.fee - satAdd s.utxo.epochFees tx.body.fee) +
    (tx.body.donation.map fun donation =>
      s.utxo.pendingDonations + donation - satAdd s.utxo.pendingDonations donation).getD 0

/-- What validation counts beyond what application moves. -/
def surplus : Int :=
  withdrawalSurplus tx s + certificateSurplus ctx tx s + overflowSurplus ctx tx s -
    outputsReplaced tx s - proposalsReplaced tx s - potsCut tx s

end Surplus

/-! ## Withdrawals -/

variable {net : NetworkId}

namespace ConwayRules

variable (ctx : RuleContext) (tx : Transaction)

theorem weightAt_drain (accounts : FinMap Hash32 Nat) (key : Hash32) :
    (drainWithdrawalAccounts tx accounts).weightAt id key =
      if key ∈ withdrawnAccounts tx then 0 else accounts.weightAt id key := by
  simp only [weightAt, lookup_drain, withdrawnAccounts, mem_toFinset]
  split
  · cases accounts.lookup key <;> rfl
  · rfl

/-- What is withdrawn from an account that validation found in a withdrawal key is drained. -/
theorem mem_withdrawnAccounts_of_withdrawnInTx {key : Hash32} (h : key ∈ withdrawnInTx tx) :
    key ∈ withdrawnAccounts tx := by
  obtain ⟨c, hc, rfl⟩ := mem_map.1 h
  obtain ⟨account, haccount, hextract⟩ := mem_filterMap.1 hc
  refine mem_toFinset.2 (mem_map.2 ⟨account, haccount, Eq.symm ?_⟩)
  obtain ⟨header, body, rfl, hlen, rfl⟩ := extractRewardCredential_eq_some hextract
  unfold rewardAccountToHash rewardCredential
  dsimp only
  split <;> rfl

/-- Accounts that certificates close are empty when the withdrawals are done. -/
theorem balance_deregistered {s s' : SubStates}
    (hrule : nonZeroBalanceRule (fullContext s net) tx = []) (hview : s'.view = s.view) :
    ∀ cert ∈ tx.body.certificates, ∀ c, deregisteredCredential cert = some c →
      (drainAccounts tx s').view.balance c.toTypedHash32 = 0 := by
  intro cert hcert c hc
  have hdrain : (drainAccounts tx s').view.balance c.toTypedHash32 =
      if c.toTypedHash32 ∈ withdrawnAccounts tx then 0
      else s'.certs.rewardAccounts.weightAt id c.toTypedHash32 := weightAt_drain tx _ _
  rw [hdrain]
  split
  · rfl
  next hkey =>
  have hnone := filterMap_eq_nil_iff.1 ((append_nil _).symm.trans hrule) c
    (mem_filterMap.2 ⟨cert, hcert, hc⟩)
  rw [if_neg fun h => hkey (mem_withdrawnAccounts_of_withdrawnInTx tx h)] at hnone
  have hbalance : s'.certs.rewardAccounts.weightAt id c.toTypedHash32 =
      s.certs.rewardAccounts.weightAt id c.toTypedHash32 :=
    congrFun (congrArg balance hview) _
  rw [hbalance, weightAt]
  cases hlook : s.certs.rewardAccounts.lookup c.toTypedHash32 with
  | none => rfl
  | some balance =>
    rw [hlook, Option.bind_some, ite_eq_right_iff] at hnone
    by_contra hne
    exact absurd (hnone (pos_of_ne_zero hne)) (by simp)

/-! ## Proposals -/

/-- The state when the proposal at position `n` has its turn: the validation context names the same
actions as the open proposals, of the state and of the transaction so far. -/
structure Opened (vctx : ValidationContext) (n : Nat) (s : SubStates) : Prop where
  roots : vctx.enactedGovRoots = some s.gov.enacted
  named : ∀ prev, (s.gov.proposals.lookup prev).map (·.procedure.govAction) =
    namedAction vctx tx n prev

section Proposals
variable {ctx tx} {vctx : ValidationContext} {n : Nat} {s s' : SubStates} {p : ProposalProcedure}

/-- Application asks of a hard fork what validation asked. -/
theorem Opened.hardforkCantFollow (h : Opened tx vctx n s) (action : GovAction) :
    hardforkCantFollow s.gov (s.epochs.protocolParams.protocolVersionMajor,
        s.epochs.protocolParams.protocolVersionMinor) action =
      (hardforkProposalCantFollow s.epochs.protocolParams vctx tx n action).isSome := by
  cases action with
  | hardForkInitiation prev target =>
    have hprev : (prev.bind fun p => s.gov.proposals.lookup p).bind
        (·.procedure.govAction.hardForkTarget) =
          (prev.bind (namedAction vctx tx n)).bind (·.hardForkTarget) := by
      cases prev with
      | none => rfl
      | some prev =>
        rw [Option.bind_some, Option.bind_some, ← h.named prev, Option.bind_map]
        rfl
    simp only [ConwayRules.hardforkCantFollow, hardforkProposalCantFollow, h.roots,
      Option.bind_some, hprev]
    generalize (if prev = s.gov.enacted.hardFork ∨
      s.epochs.protocolParams.protocolVersionMajor + 1 < target.1 then _ else _) = base
    cases base with
    | none => rfl
    | some base =>
      rw [Option.any_some, Option.bind_some]
      cases pvCanFollow base target <;> rfl
  | _ => rfl

/-- A proposal that validation let pass is opened, not dropped. -/
theorem Opened.applyProposal (h : Opened tx vctx n s)
    (hfollow : hardforkProposalCantFollow s.epochs.protocolParams vctx tx n p.govAction = none)
    (hok : applyProposal ctx tx s (p, n) = .ok s') :
    ∃ (opened : ProposalState) (count : Nat) (forest : ProposalForest), opened.procedure = p ∧
      s' = { s with gov := { s.gov with
        proposals := s.gov.proposals.insert (actionId tx n) opened
        proposalCount := count
        forest := forest } } := by
  unfold ConwayRules.applyProposal at hok
  dsimp only at hok
  split at hok
  · cases hok
  · rw [h.hardforkCantFollow, hfollow, if_neg (by simp)] at hok
    cases hok
    exact ⟨_, _, _, rfl, rfl⟩

theorem namedAction_succ_self (hn : n < 2 ^ 32) (hp : tx.body.proposalProcedures[n]? = some p) :
    namedAction vctx tx (n + 1) (actionId tx n) = some p.govAction := by
  have hindex : (BitVec.ofNat 32 n).toNat = n := by rw [toNat_ofNat, mod_eq_of_lt hn]
  unfold namedAction actionId
  rw [hindex, if_pos ⟨rfl, lt_succ_self n⟩, hp]
  rfl

theorem namedAction_succ_of_ne {prev : GovActionId} (hne : prev ≠ actionId tx n) :
    namedAction vctx tx (n + 1) prev = namedAction vctx tx n prev := by
  refine if_congr (and_congr_right fun hid => ⟨fun hlt => ?_, fun hlt => by omega⟩) rfl rfl
  refine lt_of_le_of_ne (le_of_lt_succ hlt) fun heq => hne ?_
  obtain ⟨id, index⟩ := prev
  dsimp only at hid heq
  rw [hid, actionId, ← heq, ofNat_toNat, setWidth_eq]

theorem Opened.succ (h : Opened tx vctx n s) (hn : n < 2 ^ 32)
    (hp : tx.body.proposalProcedures[n]? = some p) {opened : ProposalState}
    (hopened : opened.procedure = p) (count : Nat) (forest : ProposalForest) :
    Opened tx vctx (n + 1) { s with gov := { s.gov with
      proposals := s.gov.proposals.insert (actionId tx n) opened
      proposalCount := count
      forest := forest } } where
  roots := h.roots
  named prev := by
    rw [lookup_insert_ite]
    split
    · next heq =>
      rw [heq, namedAction_succ_self hn hp, ← hopened]
      rfl
    · next hne => rw [namedAction_succ_of_ne hne, h.named prev]

/-- All proposals are opened, one after the other. -/
theorem Opened.foldlM {rest : List ProposalProcedure} (h : Opened tx vctx n s)
    (hbound : tx.body.proposalProcedures.length ≤ 2 ^ 32)
    (hrest : tx.body.proposalProcedures.drop n = rest)
    (hfollow : ∀ e ∈ rest.zipIdx n, hardforkProposalCantFollow s.epochs.protocolParams vctx tx e.2
      e.1.govAction = none)
    (hok : (rest.zipIdx n).foldlM (ConwayRules.applyProposal ctx tx) s = .ok s') :
    s'.view = { s.view with gov := s'.gov.settled } ∧ s'.openDeposits = s.openDeposits.insertAll
        ((rest.zipIdx n).map fun e => (actionId tx e.2, e.1.deposit)) := by
  induction rest generalizing n s with
  | nil =>
    cases hok
    exact ⟨rfl, rfl⟩
  | cons p rest ih =>
    obtain ⟨s₁, hstep, hok⟩ := bind_eq_ok.1 hok
    obtain ⟨opened, count, forest, hopened, rfl⟩ := h.applyProposal (hfollow _ mem_cons_self) hstep
    have hp : tx.body.proposalProcedures[n]? = some p := by
      rw [← head?_drop, hrest]
      rfl
    have hn := (List.getElem?_eq_some_iff.1 hp).1
    have htail : tx.body.proposalProcedures.drop (n + 1) = rest := by
      rw [← tail_drop, hrest]
      rfl
    obtain ⟨hview, hdeposits⟩ := ih (h.succ (lt_of_lt_of_le hn hbound) hp hopened _ _)
      htail
      (fun e he => hfollow e (mem_cons_of_mem _ he)) hok
    refine ⟨hview, ?_⟩
    rw [hdeposits, zipIdx_cons, map_cons]
    unfold insertAll
    refine congrArg (List.foldl _ · _) ?_
    unfold openDeposits
    rw [mapValues_insert, hopened]

end Proposals

end ConwayRules

/-! ## Inputs and outputs -/

theorem nodup_of_repeatedInputs {seen inputs : List TransactionInput}
    (h : repeatedInputs seen inputs = []) : inputs.Nodup ∧ ∀ input ∈ inputs, input ∉ seen := by
  induction inputs generalizing seen with
  | nil => exact ⟨nodup_nil, fun _ h => nomatch h⟩
  | cons input inputs ih =>
    unfold repeatedInputs at h
    split at h
    · cases h
    next hseen =>
    obtain ⟨hnodup, hnot⟩ := ih h
    refine ⟨nodup_cons.2 ⟨fun hmem => hnot _ hmem mem_cons_self, hnodup⟩, ?_⟩
    intro input' hinput'
    obtain rfl | hrest := mem_cons.1 hinput'
    · exact hseen
    · exact fun hmem => hnot _ hrest (mem_cons_of_mem _ hmem)

/-- Inputs, each named once, leave the set with their coins, and outputs enter it with theirs. -/
theorem utxoCoins_applyUtxoChanges {tx : Transaction} (hnodup : tx.body.inputs.Nodup)
    (s : SubStates) :
    total (·.value.coin) (applyUtxoChanges tx s.utxo).1.utxoSet + outputsReplaced tx s +
        ((tx.body.inputs.filterMap s.utxo.utxoSet.lookup).map (·.value.coin)).sum =
      s.utxoCoins + (tx.body.outputs.map (·.value.coin)).sum := by
  have hremoved := total_removeInputs (·.value.coin) tx.body.inputs s.utxo.utxoSet
  have hcreated := total_insertAll (f := fun output : TransactionOutput => output.value.coin)
    (keyedOutputs tx.hash tx.body.outputs) (removeInputs tx.body.inputs s.utxo.utxoSet)
  have houtputs : (keyedOutputs tx.hash tx.body.outputs).map (fun e => e.2.value.coin) =
      tx.body.outputs.map (·.value.coin) := by
    conv_rhs => rw [← outputs_keyedOutputs tx.hash tx.body.outputs, map_map]
    rfl
  have hset : (applyUtxoChanges tx s.utxo).1.utxoSet =
      insertAll (keyedOutputs tx.hash tx.body.outputs)
        (removeInputs tx.body.inputs s.utxo.utxoSet) := congrArg Prod.fst (createOutputs_eq _ _)
  rw [sum_toFinset _ hnodup] at hremoved
  rw [houtputs] at hcreated
  rw [hset, sum_filterMap_lookup]
  unfold outputsReplaced utxoCoins
  omega

/-! ## The whole -/

theorem DepositBook.moved_eq (params : ProtocolParameters) (book : DepositBook)
    (cert : Certificate) : book.moved params cert =
      (countedDeposit params book cert : Int) - book.released params cert := by
  unfold moved released
  cases cert with
  | poolRegistration p =>
    simp only [posting, countedDeposit]
    cases book.registered p.operator <;> simp
  | _ => rfl

theorem SubStates.proposalDeposits_eq (s : SubStates) :
    s.proposalDeposits = s.openDeposits.total id := by
  refine (total_congr fun actionId => ?_).symm
  simp [weightAt_eq_getD, openDeposits, lookup_mapValues]

namespace ConwayRules

section Whole
variable (ctx : RuleContext) (tx : Transaction) (s : SubStates)

/-- The certificates move what validation counts as deposits, less what they take off the book. -/
theorem deposits_beforeProposals : ((beforeProposals ctx tx s).deposits : Int) =
    s.deposits + depositsCounted tx s - sumAlong (fun before cert =>
      (s.book.after s.epochs.protocolParams before).released s.epochs.protocolParams cert)
      tx.body.certificates := by
  have hview := view_beforeWithdrawals ctx tx s
  have hbook : (drainAccounts tx (beforeWithdrawals ctx tx s)).book = s.book :=
    congrArg CoinView.book hview
  have hepochs : (drainAccounts tx (beforeWithdrawals ctx tx s)).epochs = s.epochs :=
    congrArg CoinView.epochs hview
  have hcerts := deposits_applyCertList ctx
    (drainAccounts tx (beforeWithdrawals ctx tx s)) tx.body.certificates
  simp only [hbook, hepochs, moved_eq, sumAlong_sub] at hcerts
  rw [deposits_congr (congrArg deposit hbook)] at hcerts
  rw [beforeProposals_eq, hcerts, depositsCounted]
  omega

/-- Withdrawals and deregistrations take from the accounts what the withdrawn ones held. -/
theorem rewardBalances_beforeProposals (hrule : nonZeroBalanceRule (fullContext s net) tx = []) :
    (beforeProposals ctx tx s).rewardBalances +
        ∑ key ∈ withdrawnAccounts tx, s.certs.rewardAccounts.weightAt id key =
      s.rewardBalances := by
  have hview := view_beforeWithdrawals ctx tx s
  have hbalance : (beforeWithdrawals ctx tx s).certs.rewardAccounts.weightAt id =
      s.certs.rewardAccounts.weightAt id := congrArg balance hview
  have hdrain := total_of_cleared
    (weightAt_drain tx (beforeWithdrawals ctx tx s).certs.rewardAccounts)
  have hclosed : (beforeProposals ctx tx s).view.balance =
      (drainAccounts tx (beforeWithdrawals ctx tx s)).view.balance := by
    rw [beforeProposals_eq, view_applyCertList]
    exact balance_foldl _ _ (balance_deregistered tx hrule hview)
  rw [rewardBalances_congr hclosed]
  rw [hbalance] at hdrain
  exact hdrain.trans (rewardBalances_congr (congrArg balance hview))

/-- Votes move no coin, and every proposal brings its deposit. -/
theorem process_coins {t t' : SubStates}
    (hconway : 9 ≤ s.epochs.protocolParams.protocolVersionMajor)
    (hbound : tx.body.proposalProcedures.length ≤ 2 ^ 32)
    (hrule : proposalCantFollowRule s.epochs.protocolParams (fullContext s net) tx = [])
    (hsettled : t.gov.settled = s.gov.settled) (hepochs : t.epochs = s.epochs)
    (hok : processGovernanceVotesAndProposals ctx tx t = .ok t') :
    t'.view = { t.view with gov := t'.gov.settled } ∧
      t'.openDeposits = s.openDeposits.insertAll (openedDeposits tx) := by
  have hvotes := sameCoins_recordVotes tx t.gov
  have hproposals : (recordVotes tx t.gov).proposals = s.gov.proposals :=
    (congrArg GovernanceState.proposals (hvotes.settled.trans hsettled) :)
  have henacted : (recordVotes tx t.gov).enacted = s.gov.enacted :=
    (congrArg GovernanceState.enacted (hvotes.settled.trans hsettled) :)
  have hopened : Opened tx (fullContext s net) 0 { t with gov := recordVotes tx t.gov } := by
    refine ⟨?_, fun prev => ?_⟩
    · rw [henacted]
      rfl
    · rw [hproposals, namedAction, if_neg fun h => not_lt_zero _ h.2]
      exact (lookup_mapValues _ _ _).symm
  have hfollow : ∀ e ∈ tx.body.proposalProcedures.zipIdx,
      hardforkProposalCantFollow t.epochs.protocolParams (fullContext s net) tx e.2
        e.1.govAction = none := by
    intro e he
    rw [proposalCantFollowRule, if_pos hconway] at hrule
    rw [hepochs]
    exact Option.map_eq_none_iff.1 (filterMap_eq_nil_iff.1 hrule e he)
  obtain ⟨hview, hdeposits⟩ := hopened.foldlM hbound drop_zero hfollow hok
  rw [hvotes.view] at hview
  refine ⟨hview, hdeposits.trans ?_⟩
  unfold openDeposits openedDeposits
  rw [hproposals]

end Whole

end ConwayRules

section Main
variable {v : Validator} {net : NetworkId} {tx : Transaction} {s : SubStates}

theorem sum_proposalDeposits (hconway : 9 ≤ v.params.protocolVersionMajor)
    (hrule : proposalDepositRule v.params tx = []) :
    ((openedDeposits tx).map fun e => e.2).sum =
      tx.body.proposalProcedures.length * v.params.govActionDeposit := by
  rw [proposalDepositRule, if_pos hconway, filterMap_eq_nil_iff] at hrule
  have hdeposits : (openedDeposits tx).map (fun e => e.2) =
      List.replicate tx.body.proposalProcedures.length v.params.govActionDeposit := by
    refine eq_replicate_iff.2 ⟨by simp [openedDeposits], fun deposit hdeposit => ?_⟩
    obtain ⟨e, he, rfl⟩ := mem_map.1 hdeposit
    obtain ⟨⟨p, n⟩, hp, rfl⟩ := mem_map.1 he
    have hp := hrule p (fst_mem_of_mem_zipIdx hp)
    by_contra hne
    rw [if_pos hne] at hp
    cases hp
  rw [hdeposits, sum_replicate, Nat.nsmul_eq_mul]

/-- What validation has balanced, with the sums of the certificates as integers. -/
theorem balanced_of_passed (hparams : v.params = s.epochs.protocolParams)
    (hconway : 9 ≤ v.params.protocolVersionMajor)
    (hp : Passed v (fullContext s net) tx s.utxo.utxoSet.lookup) :
    ((((tx.body.inputs.filterMap s.utxo.utxoSet.lookup).map (·.value.coin)).sum : Nat) : Int) +
        tx.body.withdrawals.values.sum + refundsCounted (fullContext s net) tx s % 2 ^ 64 =
      ((tx.body.outputs.map (·.value.coin)).sum : Nat) + tx.body.fee +
        depositsCounted tx s % 2 ^ 64 +
        ((openedDeposits tx).map fun e => e.2).sum + (tx.body.donation.getD 0 : Nat) := by
  have hrule := hp.conserved
  have hpools : ∀ poolId, ((fullContext s net).registeredPools.any fun pools =>
      decide (poolId ∈ pools)) = s.book.registered poolId := by
    intro poolId
    rw [fullContext, Option.any_some, SubStates.book, Bool.eq_iff_iff, decide_eq_true_iff,
      Finmap.mem_keys, Finmap.lookup_isSome]
  have hcounts : Counts (fullContext s net) _ _ _
      (calculateDepositsAndRefunds v.params (fullContext s net) tx.body.certificates) :=
    counts_calculate hpools _
  have hdeposits := hcounts.deposits
  have hrefunds := hcounts.refunds
  have hinputs : distinctInputs v.params tx = tx.body.inputs := by
    rw [distinctInputs, if_neg (not_lt.2 hconway)]
  rw [valueConservationRule, ite_eq_right_iff] at hrule
  have hequal : consumedValue v.params (fullContext s net) tx s.utxo.utxoSet.lookup =
      producedValue v.params (fullContext s net) tx := by
    by_contra hne
    exact absurd (hrule hne) (by simp)
  rw [consumedValue, producedValue, hinputs] at hequal
  rw [sum_proposalDeposits hconway hp.proposalDeposits, hparams]
  rw [hparams] at hequal hdeposits hrefunds
  unfold refundsCounted depositsCounted
  omega

/-- Fee and donation go to their pots, but for what does not fit. -/
theorem pots_spend (tx : Transaction) {t : SubStates} (hutxo : t.utxo = s.utxo) :
    (spend tx t).1.utxo.epochFees + (spend tx t).1.utxo.pendingDonations + potsCut tx s =
      s.utxo.epochFees + s.utxo.pendingDonations + tx.body.fee + tx.body.donation.getD 0 := by
  have hcut : ∀ a b, satAdd a b + (a + b - satAdd a b) = a + b := fun a b =>
    add_sub_of_le (min_le_left _ _)
  have hfees : (spend tx t).1.utxo.epochFees = satAdd s.utxo.epochFees tx.body.fee := by
    rw [← hutxo]
    rfl
  have hfee := hcut s.utxo.epochFees tx.body.fee
  unfold potsCut
  cases hdonation : tx.body.donation with
  | none =>
    have hpot : (spend tx t).1.utxo.pendingDonations = s.utxo.pendingDonations := by
      simp only [spend, hdonation, ← hutxo]
      rfl
    rw [hfees, hpot, Option.map_none, Option.getD_none]
    omega
  | some donation =>
    have hpot : (spend tx t).1.utxo.pendingDonations = satAdd s.utxo.pendingDonations donation := by
      simp only [spend, hdonation, ← hutxo]
      rfl
    have hgift := hcut s.utxo.pendingDonations donation
    rw [hfees, hpot, Option.map_some, Option.getD_some, Option.getD_some]
    omega

/-- An accepted transaction changes the coins of the ledger by its surplus. -/
theorem circulating_applyValidTx {mode : BlockValidationMode} {ctx : RuleContext} {s' : SubStates}
    {diff : UtxoDiff} (hparams : v.params = s.epochs.protocolParams)
    (hconway : 9 ≤ v.params.protocolVersionMajor)
    (hbound : tx.body.proposalProcedures.length ≤ 2 ^ 32)
    (hp : Passed v (fullContext s net) tx s.utxo.utxoSet.lookup)
    (hok : ConwayRules.applyValidTx mode ctx tx s = .ok (s', diff)) :
    (s'.circulating : Int) = s.circulating + surplus (fullContext s net) tx s := by
  obtain ⟨t, hprocess, rfl⟩ := applyValidTx_eq_ok hok
  have hbefore := view_beforeProposals ctx tx s
  have hfollow := hp.hardForks
  rw [hparams] at hfollow
  obtain ⟨hview, hopen⟩ := process_coins ctx tx s (hparams ▸ hconway) hbound hfollow
    (congrArg CoinView.gov hbefore) (congrArg CoinView.epochs hbefore) hprocess
  -- one equation for each place where coins are kept
  have hutxo : t.utxo = s.utxo :=
    (congrArg CoinView.utxo hview).trans (congrArg CoinView.utxo hbefore)
  have hdeposits : (spend tx t).1.deposits = (beforeProposals ctx tx s).deposits :=
    deposits_congr (congrArg (fun w => w.book.deposit) hview)
  have hbalances : (spend tx t).1.rewardBalances = (beforeProposals ctx tx s).rewardBalances :=
    rewardBalances_congr (congrArg (fun w => w.balance) hview)
  have hproposals : (spend tx t).1.proposalDeposits = t.openDeposits.total id :=
    t.proposalDeposits_eq
  have hcerts := deposits_beforeProposals ctx tx s
  have haccounts := rewardBalances_beforeProposals ctx tx s hp.balances
  have hbrought := total_insertAll (f := id) (openedDeposits tx) s.openDeposits
  have hdup := hp.duplicateInputs
  rw [duplicateInputRule, if_pos hconway, map_eq_nil_iff] at hdup
  have hcoins := utxoCoins_applyUtxoChanges (nodup_of_repeatedInputs hdup).1 s
  have hbalanced := balanced_of_passed hparams hconway hp
  have hpots := pots_spend tx hutxo
  have hspent : (spend tx t).1.utxoCoins =
      total (·.value.coin) (applyUtxoChanges tx s.utxo).1.utxoSet := by
    rw [← hutxo]
    rfl
  rw [circulating_eq, circulating_eq, hspent, hdeposits, hbalances, hproposals,
    hopen, s.proposalDeposits_eq, surplus, withdrawalSurplus, certificateSurplus, sumAlong_sub,
    overflowSurplus, proposalsReplaced]
  simp only [id] at hbrought
  unfold refundsCounted at hbalanced ⊢
  omega

end Main

/-- An accepted transaction leaves the coins of the ledger unchanged exactly when its surplus is
zero: when the withdrawals claim what the accounts hold, the certificates are refunded what is on
record, nothing runs over `u64`, and no output or proposal replaces another. -/
theorem valid_tx_conserves_iff (v : Validator) (mode : BlockValidationMode) (ctx : RuleContext)
    (net : NetworkId) (tx : Transaction) (s s' : SubStates) (diff : UtxoDiff)
    (hparams : v.params = s.epochs.protocolParams) (hconway : 9 ≤ v.params.protocolVersionMajor)
    (hbound : tx.body.proposalProcedures.length ≤ 2 ^ 32)
    (haccepted : validateTransactionWithContext v (fullContext s net) tx s.utxo.utxoSet.lookup =
      .ok ())
    (hok : ConwayRules.applyValidTx mode ctx tx s = .ok (s', diff)) :
    s'.circulating = s.circulating ↔ surplus (fullContext s net) tx s = 0 := by
  have hcoins := circulating_applyValidTx hparams hconway hbound (passed_of_accepted haccepted) hok
  omega

/-! ## Two transactions -/

/-- A ledger with one unspent output of five coins. -/
def fiveCoins : SubStates where
  utxo := { utxoSet := Finmap.insert ⟨1, 0⟩ (nativeOutput 5) ∅ }
  epochs := { protocolParams := plainValidator.params }

def fiveCoinsContext : RuleContext where
  params := plainValidator.params
  currentSlot := 0
  currentEpoch := 0
  txIndex := 0

/-- Spend it, with some certificates for the credential of its script. -/
def spendFive (certificates : List Certificate) (change : Nat) : Transaction where
  hash := 2
  body := { inputs := [⟨1, 0⟩], outputs := [nativeOutput change], fee := 2, certificates }
  witnessSet := { nativeScripts := [.scriptAll []] }

/-- A registration with the key deposit of two coins. -/
def fiveRegistered : Transaction := spendFive [.conwayStakeRegistration (.script nativePass) 2] 1

/-- The same, and a deregistration that asks for ten coins. -/
def tenRefunded : Transaction :=
  spendFive [.conwayStakeRegistration (.script nativePass) 2,
    .conwayStakeDeregistration (.script nativePass) 10] 11

theorem registration_conserves :
    ∃ s' diff, ConwayRules.applyValidTx .validateAll fiveCoinsContext fiveRegistered fiveCoins =
        .ok (s', diff) ∧ s'.circulating = fiveCoins.circulating := by
  obtain ⟨s', diff, hok⟩ : ∃ s' diff, ConwayRules.applyValidTx .validateAll fiveCoinsContext
      fiveRegistered fiveCoins = .ok (s', diff) := ⟨_, _, rfl⟩
  refine ⟨s', diff, hok, (valid_tx_conserves_iff plainValidator .validateAll fiveCoinsContext
    .testnet fiveRegistered fiveCoins s' diff rfl (by decide) (by decide) (by decide +kernel)
    hok).2 ?_⟩
  decide +kernel

/-- The refund is compared with the deposit on record before the transaction, and there is none:
ten coins are refunded for two, and eight are made from nothing. -/
theorem refund_of_new_deposit_mints :
    tenRefunded.isValid = true ∧ tenRefunded.body.certificates.Nodup ∧
      fiveCoins.certs.totalStakeKeyDeposits = fiveCoins.stakeKeyDeposits ∧
      validateTransactionWithContext plainValidator (fullContext fiveCoins .testnet) tenRefunded
        fiveCoins.utxo.utxoSet.lookup = .ok () ∧
      fiveCoins.circulating = 5 ∧
      ∃ s' diff, ConwayRules.applyValidTx .validateAll fiveCoinsContext tenRefunded fiveCoins =
        .ok (s', diff) ∧ s'.circulating = 13 :=
  ⟨rfl, by decide +kernel, by decide +kernel, by decide +kernel, by decide +kernel, _, _, rfl,
    by decide +kernel⟩

end Dugite
