import Dugite.Ledger.Certificates
import Dugite.Validation.Accounting

/-!
# Applying a valid Conway transaction

`ConwayRules::apply_valid_tx`, in the order of the source: the checks that are left to application,
DRep activity, withdrawals, certificates, votes and proposals, and last the UTxO set with the fee
and the donation.
-/

namespace Dugite

open Checks Credential

/-- Set the balance of the account that a withdrawal key names to zero. -/
def drainAccount (accounts : FinMap Hash32 Nat) (account : Bytes) : FinMap Hash32 Nat :=
  let key := rewardAccountToHash account
  if (accounts.lookup key).isSome then accounts.insert key 0 else accounts

def drainWithdrawalAccounts (tx : Transaction) (accounts : FinMap Hash32 Nat) : FinMap Hash32 Nat :=
  tx.body.withdrawals.keys.foldl drainAccount accounts

theorem lookup_drainAccount (accounts : FinMap Hash32 Nat) (account : Bytes) (key : Hash32) :
    (drainAccount accounts account).lookup key =
      if key = rewardAccountToHash account then (accounts.lookup key).map fun _ => 0
      else accounts.lookup key := by
  unfold drainAccount
  dsimp only
  split
  · next hsome =>
    rw [FinMap.lookup_insert_ite]
    split
    · next heq =>
      obtain ⟨balance, hbalance⟩ := Option.isSome_iff_exists.1 hsome
      rw [heq, hbalance]
      rfl
    · rfl
  · next hnone =>
    split
    · next heq =>
      rw [heq, Option.not_isSome_iff_eq_none.1 hnone]
      rfl
    · rfl

/-- Draining touches the accounts that the keys name, and only those that exist. -/
theorem lookup_drain (tx : Transaction) (accounts : FinMap Hash32 Nat) (key : Hash32) :
    (drainWithdrawalAccounts tx accounts).lookup key =
      if key ∈ tx.body.withdrawals.keys.map rewardAccountToHash then
        (accounts.lookup key).map fun _ => 0
      else accounts.lookup key := by
  refine FinMap.lookup_foldl_at (F := fun _ v => v.map fun _ => 0) (fun _ v => ?_)
    lookup_drainAccount _ accounts key
  cases v <;> rfl

namespace ConwayRules

section
variable (mode : BlockValidationMode) (ctx : RuleContext) (tx : Transaction) (s : SubStates)

def txError (errors : String) : LedgerError :=
  .blockTxValidationFailed ctx.currentSlot tx.hash errors

/-! ## Checks -/

/-- A declared treasury value is compared when the block is validated; a replay only warns. -/
def validateTreasuryValue : Except LedgerError Unit :=
  match tx.body.treasuryValue, mode with
  | some declared, .validateAll =>
    rejectIf (declared ≠ s.epochs.treasury) (txError ctx tx
      ("MismatchedTreasuryValue: declared " ++ toString declared ++ " != actual " ++
        toString s.epochs.treasury))
  | _, _ => .ok ()

/-- A withdrawal from the account of a key needs a vote delegation. -/
def validateWithdrawalsDelegated : Except LedgerError Unit :=
  tx.body.withdrawals.keys.forM fun account =>
    let key := rewardAccountToHash account
    let isKey := match account with
      | [] => false
      | header :: _ => decide (29 ≤ account.length) && decide (header &&& 0x10 = 0)
    rejectIf (isKey && (s.gov.voteDelegations.lookup key).isNone) (txError ctx tx
      ("WithdrawalNotDelegated: key-hash credential " ++ key.toHex ++
        " has no DRep delegation (PV10 requirement)"))

/-- A withdrawal is of the whole balance; an account that is not there has none. -/
def testIncompleteAndMissingWithdrawals : Except LedgerError Unit :=
  tx.body.withdrawals.entries.forM fun e =>
    let key := rewardAccountToHash e.1
    let balance := (s.certs.rewardAccounts.lookup key).getD 0
    rejectIf (e.2 ≠ balance) (txError ctx tx
      ("WithdrawalAmountMismatch: withdrawal " ++ toString e.2 ++ " != reward balance " ++
        toString balance ++ " for account " ++ key.toHex ++ " (PV10 requirement)"))

/-! ## DRep activity -/

/-- A DRep that votes is active from now on. -/
def noteVoter (expiry : Nat) (s : SubStates) : Voter → SubStates
  | .drep c =>
    let note := fun drep : DRepRegistration => { drep with drepExpiry := expiry, active := true }
    { s with gov := s.gov.modifyDRep c.toTypedHash32 note }
  | _ => s

def updateDRepExpiriesForTx : SubStates :=
  tx.body.votingProcedures.keys.foldl (noteVoter (s.drepExpiry ctx)) s

/-- A transaction with proposals gives all DReps the dormant epochs back, except those that are
expired even so. -/
def updateDormantDRepExpiryForTx : SubStates :=
  let numDormant := s.gov.numDormantEpochs
  let revive := fun drep : DRepRegistration =>
    let actual := satAdd drep.drepExpiry numDormant
    if ctx.currentEpoch ≤ actual then { drep with drepExpiry := actual } else drep
  if tx.body.proposalProcedures.isEmpty || numDormant = 0 then s
  else
    { s with gov := { s.gov with
        numDormantEpochs := 0
        dreps := s.gov.dreps.mapValues revive } }

/-- The voter is the DRep with this key. -/
def isDRep (key : Hash32) : Voter → Bool
  | .drep c => key = c.toTypedHash32
  | _ => false

def expiryOf (key : Hash32) : Option Nat := (s.gov.dreps.lookup key).map (·.drepExpiry)

theorem expiryOf_foldl_noteVoter (expiry : Nat) (voters : List Voter) (key : Hash32) :
    expiryOf (voters.foldl (noteVoter expiry) s) key =
      if voters.any (isDRep key) then (expiryOf s key).map fun _ => expiry else expiryOf s key := by
  induction voters generalizing s with
  | nil => rfl
  | cons voter voters ih =>
    have hvoter : expiryOf (noteVoter expiry s voter) key =
        if isDRep key voter then (expiryOf s key).map fun _ => expiry else expiryOf s key := by
      cases voter with
      | drep c =>
        simp only [expiryOf, noteVoter, isDRep, GovernanceState.lookup_modifyDRep,
          decide_eq_true_eq]
        split
        · rw [Option.map_map, Option.map_map]
          rfl
        · rfl
      | _ => rfl
    rw [List.foldl_cons, ih, hvoter, List.any_cons]
    cases isDRep key voter <;> cases voters.any (isDRep key) <;> simp [Option.map_map, Function.comp_def]

theorem numDormantEpochs_foldl_noteVoter (expiry : Nat) (voters : List Voter) :
    (voters.foldl (noteVoter expiry) s).gov.numDormantEpochs = s.gov.numDormantEpochs := by
  refine List.foldlRecOn (motive := fun s' : SubStates =>
    s'.gov.numDormantEpochs = s.gov.numDormantEpochs) voters _ rfl fun s' h voter _ => ?_
  rw [← h]
  cases voter with
  | drep c =>
    rw [noteVoter, GovernanceState.modifyDRep]
    split <;> rfl
  | _ => rfl

/-- The expiry of a DRep that gets the dormant epochs back. -/
def revived (numDormant expiry : Nat) : Nat :=
  if ctx.currentEpoch ≤ satAdd expiry numDormant then satAdd expiry numDormant else expiry

theorem expiryOf_updateDormant (hproposals : tx.body.proposalProcedures ≠ [])
    (hdormant : s.gov.numDormantEpochs ≠ 0) (key : Hash32) :
    expiryOf (updateDormantDRepExpiryForTx ctx tx s) key =
        (expiryOf s key).map (revived ctx s.gov.numDormantEpochs) ∧
      (updateDormantDRepExpiryForTx ctx tx s).gov.numDormantEpochs = 0 := by
  simp only [updateDormantDRepExpiryForTx, List.isEmpty_iff, hproposals, hdormant, Bool.or_eq_true,
    decide_eq_true_eq, or_self, if_false, and_true, expiryOf, FinMap.lookup_mapValues,
    Option.map_map]
  refine congrArg (Option.map · _) (funext fun drep => ?_)
  simp only [Function.comp_apply, revived]
  split <;> rfl

/-- The epoch until which activity lasts, without the dormant epochs. -/
def activityEnd : Nat := wrapAdd ctx.currentEpoch s.epochs.protocolParams.drepActivity

/-- The credit gives back what the vote left out. From version 10 on all dormant epochs were left
out and the DRep is revived, or there was nothing to leave out and it stays expired; before, nothing
was left out and nothing is given back. The end of the activity can lie before the current epoch
where its sum wrapped. -/
def CreditCancels : Prop :=
  if 10 ≤ s.epochs.protocolParams.protocolVersionMajor then
    s.gov.numDormantEpochs ≤ activityEnd ctx s ∧ ctx.currentEpoch ≤ activityEnd ctx s ∨
      activityEnd ctx s = 0 ∧ s.gov.numDormantEpochs < ctx.currentEpoch
  else activityEnd ctx s = u64Max ∨ activityEnd ctx s + s.gov.numDormantEpochs < ctx.currentEpoch

/-- A DRep whose expiry was shortened by the dormant epochs gets exactly these back. -/
theorem revived_drepExpiry_iff (hepoch : ctx.currentEpoch ≤ u64Max)
    (hcount : s.gov.numDormantEpochs ≤ u64Max) (hdormant : s.gov.numDormantEpochs ≠ 0) :
    revived ctx s.gov.numDormantEpochs (s.drepExpiry ctx) = activityEnd ctx s ↔
      CreditCancels ctx s := by
  have hend : activityEnd ctx s ≤ u64Max := Nat.le_pred_of_lt (Nat.mod_lt _ (by decide))
  have hexpiry : s.drepExpiry ctx = if 10 ≤ s.epochs.protocolParams.protocolVersionMajor then
        activityEnd ctx s - s.gov.numDormantEpochs else activityEnd ctx s := rfl
  rw [hexpiry, CreditCancels, revived, satAdd]
  split
  · split <;> omega
  · split <;> omega

/-- The two updates commute where the credit cancels what the vote left out, and else only where
nothing is given back or nobody who votes is registered. -/
theorem drep_updates_commute_iff (hepoch : ctx.currentEpoch ≤ u64Max)
    (hcount : s.gov.numDormantEpochs ≤ u64Max) :
    ((∀ key, expiryOf (updateDormantDRepExpiryForTx ctx tx (updateDRepExpiriesForTx ctx tx s)) key =
        expiryOf (updateDRepExpiriesForTx ctx tx (updateDormantDRepExpiryForTx ctx tx s)) key) ∧
      (updateDormantDRepExpiryForTx ctx tx (updateDRepExpiriesForTx ctx tx s)).gov.numDormantEpochs =
        (updateDRepExpiriesForTx ctx tx
          (updateDormantDRepExpiryForTx ctx tx s)).gov.numDormantEpochs) ↔
      tx.body.proposalProcedures = [] ∨ s.gov.numDormantEpochs = 0 ∨
        (∀ key, tx.body.votingProcedures.keys.any (isDRep key) → expiryOf s key = none) ∨
        CreditCancels ctx s := by
  have hvotes : (updateDRepExpiriesForTx ctx tx s).gov.numDormantEpochs =
      s.gov.numDormantEpochs := numDormantEpochs_foldl_noteVoter s _ _
  by_cases hproposals : tx.body.proposalProcedures = []
  · simp [updateDormantDRepExpiryForTx, hproposals]
  by_cases hdormant : s.gov.numDormantEpochs = 0
  · simp [updateDormantDRepExpiryForTx, hdormant, hvotes]
  have hlater : (updateDormantDRepExpiryForTx ctx tx s).drepExpiry ctx = activityEnd ctx s := by
    simp [SubStates.drepExpiry, updateDormantDRepExpiryForTx, hproposals, hdormant, satSub,
      activityEnd]
  have hkey : ∀ key,
      expiryOf (updateDormantDRepExpiryForTx ctx tx (updateDRepExpiriesForTx ctx tx s)) key =
          expiryOf (updateDRepExpiriesForTx ctx tx (updateDormantDRepExpiryForTx ctx tx s)) key ↔
        (tx.body.votingProcedures.keys.any (isDRep key) → expiryOf s key ≠ none →
          revived ctx s.gov.numDormantEpochs (s.drepExpiry ctx) = activityEnd ctx s) := by
    intro key
    rw [(expiryOf_updateDormant ctx tx _ hproposals (hvotes ▸ hdormant) key).1, hvotes,
      updateDRepExpiriesForTx, updateDRepExpiriesForTx, expiryOf_foldl_noteVoter,
      expiryOf_foldl_noteVoter, hlater, (expiryOf_updateDormant ctx tx s hproposals hdormant key).1]
    cases expiryOf s key <;> cases tx.body.votingProcedures.keys.any (isDRep key) <;> simp
  have hcounter : (updateDormantDRepExpiryForTx ctx tx
      (updateDRepExpiriesForTx ctx tx s)).gov.numDormantEpochs =
      (updateDRepExpiriesForTx ctx tx
        (updateDormantDRepExpiryForTx ctx tx s)).gov.numDormantEpochs := by
    rw [(expiryOf_updateDormant ctx tx _ hproposals (hvotes ▸ hdormant) 0).2,
      updateDRepExpiriesForTx, numDormantEpochs_foldl_noteVoter,
      (expiryOf_updateDormant ctx tx s hproposals hdormant 0).2]
  simp only [hkey, hcounter, hproposals, hdormant, false_or, and_true,
    revived_drepExpiry_iff ctx s hepoch hcount hdormant]
  constructor
  · intro h
    by_cases hnone : ∀ key, tx.body.votingProcedures.keys.any (isDRep key) → expiryOf s key = none
    · exact .inl hnone
    · push Not at hnone
      obtain ⟨key, hvoter, hsome⟩ := hnone
      exact .inr (h key hvoter hsome)
  · rintro (hnone | h) key hvoter hsome
    · exact absurd (hnone key hvoter) hsome
    · exact h

/-- After one dormant epoch, with one DRep. -/
def oneDormantEpoch (version : Nat) : SubStates where
  utxo := { utxoSet := ∅ }
  gov := {
    numDormantEpochs := 1
    dreps := Finmap.insert (verificationKey 1).toTypedHash32
      ⟨.verificationKey 1, 0, none, 0, 5, true, ∅⟩ ∅ }
  epochs := { protocolParams :=
    { protocolVersionMajor := version, protocolVersionMinor := 0, keyDeposit := 2
      poolDeposit := 500, drepDeposit := 500, govActionDeposit := 1000
      collateralPercentage := 150, maxTxExUnits := ⟨0, 0⟩ } }

/-- The DRep votes, and something is proposed. -/
def voteAndPropose : Transaction where
  hash := 2
  body := {
    inputs := [], outputs := [], fee := 0
    votingProcedures := .single (.drep (.verificationKey 1)) ∅
    proposalProcedures := [⟨1000, [], .infoAction, ⟨"", 0⟩⟩] }

def atStart (s : SubStates) : RuleContext := ⟨s.epochs.protocolParams, 0, 0, 0⟩

/-- From version 10 on the epoch that the vote left out comes back. -/
theorem updates_commute_at_ten :
    expiryOf (updateDormantDRepExpiryForTx (atStart (oneDormantEpoch 10)) voteAndPropose
        (updateDRepExpiriesForTx (atStart (oneDormantEpoch 10)) voteAndPropose
          (oneDormantEpoch 10))) (verificationKey 1).toTypedHash32 =
      expiryOf (updateDRepExpiriesForTx (atStart (oneDormantEpoch 10)) voteAndPropose
        (updateDormantDRepExpiryForTx (atStart (oneDormantEpoch 10)) voteAndPropose
          (oneDormantEpoch 10))) (verificationKey 1).toTypedHash32 :=
  ((drep_updates_commute_iff (atStart (oneDormantEpoch 10)) voteAndPropose (oneDormantEpoch 10)
    (Nat.zero_le _) (by decide)).2 (.inr (.inr (.inr (by unfold CreditCancels; decide))))).1 _

/-- Version 9 subtracts nothing at the vote and adds it all the same. -/
theorem vote_gains_epoch_at_nine :
    expiryOf (updateDormantDRepExpiryForTx (atStart (oneDormantEpoch 9)) voteAndPropose
        (updateDRepExpiriesForTx (atStart (oneDormantEpoch 9)) voteAndPropose
          (oneDormantEpoch 9))) (verificationKey 1).toTypedHash32 = some 21 ∧
      expiryOf (updateDRepExpiriesForTx (atStart (oneDormantEpoch 9)) voteAndPropose
        (updateDormantDRepExpiryForTx (atStart (oneDormantEpoch 9)) voteAndPropose
          (oneDormantEpoch 9))) (verificationKey 1).toTypedHash32 = some 20 := by
  decide +kernel

/-! ## Withdrawals and certificates -/

def drainAccounts : SubStates :=
  { s with certs := { s.certs with
      rewardAccounts := drainWithdrawalAccounts tx s.certs.rewardAccounts } }

def applyCerts : SubStates := s.applyCertList ctx tx.body.certificates

/-! ## Votes and proposals -/

/-- The last vote of a voter on an action counts. -/
def recordVote (voter : Voter) (gov : GovernanceState) (vote : GovActionId × VotingProcedure) :
    GovernanceState :=
  let votes := (gov.votesByAction.lookup vote.1).getD ∅
  { gov with votesByAction := gov.votesByAction.insert vote.1 (votes.insert voter vote.2) }

def recordVotes (gov : GovernanceState) : GovernanceState :=
  tx.body.votingProcedures.entries.foldl (fun gov e => e.2.entries.foldl (recordVote e.1) gov) gov

def actionId (idx : Nat) : GovActionId := ⟨tx.hash, BitVec.ofNat 32 idx⟩

/-- A proposal continues the enacted root of its purpose or an open proposal. -/
def prevIsValid (gov : GovernanceState) (action : GovAction) : Bool :=
  match govActionPrevId action with
  | none => (gov.enacted.rootFor action).isNone
  | some prev =>
    decide (gov.enacted.rootFor action = some prev) || (gov.proposals.lookup prev).isSome

/-- A hard fork whose target does not follow its base; the base is the current version, or the
target of the open proposal it continues. -/
def hardforkCantFollow (gov : GovernanceState) (current : Nat × Nat) : GovAction → Bool
  | .hardForkInitiation prev target =>
    let base := if prev = gov.enacted.hardFork ∨ current.1 + 1 < target.1 then some current
      else (prev.bind fun p => gov.proposals.lookup p).bind (·.procedure.govAction.hardForkTarget)
    base.any fun base => !pvCanFollow base target
  | _ => false

def displayActionId (id : GovActionId) : String :=
  id.transactionId.toHex ++ "#" ++ toString id.actionIndex.toNat

def invalidPrevText (idx : Nat) (action : GovAction) : String :=
  let prev := match govActionPrevId action with
    | some prev => "Some(\"" ++ displayActionId prev ++ "\")"
    | none => "None"
  "InvalidPrevGovActionId: proposal " ++ displayActionId (actionId tx idx) ++
    " has prev_action_id " ++ prev ++ " which is neither a genesis root, the last enacted root, " ++
    "nor an active in-flight proposal (Haskell Conway.Rules.Gov failBecause; dugite #914 — " ++
    "reaching this on apply means governance state diverged, e.g. #898 pRoots loss)"

/-- Open a proposal. A hard fork that does not follow is dropped. -/
def applyProposal (s : SubStates) (e : ProposalProcedure × Nat) : Except LedgerError SubStates :=
  let params := s.epochs.protocolParams
  let opened : ProposalState :=
    { procedure := e.1
      proposedEpoch := ctx.currentEpoch
      expiresEpoch := wrapAdd ctx.currentEpoch params.govActionLifetime
      yesVotes := 0
      noVotes := 0
      abstainVotes := 0
      submissionIndex := s.gov.proposalCount }
  if !prevIsValid s.gov e.1.govAction then
    .error (txError ctx tx (invalidPrevText tx e.2 e.1.govAction))
  else if hardforkCantFollow s.gov (params.protocolVersionMajor, params.protocolVersionMinor)
      e.1.govAction then .ok s
  else
    .ok { s with gov := { s.gov with
        proposals := s.gov.proposals.insert (actionId tx e.2) opened
        proposalCount := wrapAdd s.gov.proposalCount 1
        forest := match govActionPurposeTag e.1.govAction with
          | some purpose => s.gov.forest.modify purpose fun tree =>
              tree.addProposal (actionId tx e.2) (govActionPrevId e.1.govAction)
          | none => s.gov.forest } }

def processGovernanceVotesAndProposals : Except LedgerError SubStates :=
  tx.body.proposalProcedures.zipIdx.foldlM (applyProposal ctx tx)
    { s with gov := recordVotes tx s.gov }

/-! ## The whole -/

/-- What happens between the checks and the proposals. -/
def beforeProposals : SubStates :=
  applyCerts ctx tx (drainAccounts tx (updateDormantDRepExpiryForTx ctx tx
    (updateDRepExpiriesForTx ctx tx s)))

/-- The UTxO set, the fee and the donation. -/
def spend : SubStates × UtxoDiff :=
  let (utxo, diff) := applyUtxoChanges tx s.utxo
  let pendingDonations := match tx.body.donation with
    | some donation => satAdd utxo.pendingDonations donation
    | none => utxo.pendingDonations
  ({ s with utxo := { utxo with pendingDonations } }, diff)

def applyValidTx : Except LedgerError (SubStates × UtxoDiff) := do
  validateTreasuryValue mode ctx tx s
  if 10 ≤ ctx.params.protocolVersionMajor then
    validateWithdrawalsDelegated ctx tx s
    testIncompleteAndMissingWithdrawals ctx tx s
  let s ← processGovernanceVotesAndProposals ctx tx (beforeProposals ctx tx s)
  return spend tx s

end

/-- What is left of the application once its checks have passed. -/
theorem applyValidTx_eq_ok {mode : BlockValidationMode} {ctx : RuleContext} {tx : Transaction}
    {s s' : SubStates} {diff : UtxoDiff} (hok : applyValidTx mode ctx tx s = .ok (s', diff)) :
    ∃ t, processGovernanceVotesAndProposals ctx tx (beforeProposals ctx tx s) = .ok t ∧
      s' = (spend tx t).1 := by
  obtain ⟨-, hok⟩ := bind_unit_eq_ok.1 hok
  have hrest : ∃ t, processGovernanceVotesAndProposals ctx tx (beforeProposals ctx tx s) = .ok t ∧
      (pure (spend tx t) : Except LedgerError _) = .ok (s', diff) := by
    split at hok
    · obtain ⟨-, hok⟩ := bind_unit_eq_ok.1 hok
      obtain ⟨-, hok⟩ := bind_unit_eq_ok.1 hok
      exact bind_eq_ok.1 hok
    · exact bind_eq_ok.1 hok
  obtain ⟨t, hprocess, hspend⟩ := hrest
  cases hspend
  exact ⟨t, hprocess, rfl⟩

end ConwayRules

end Dugite
