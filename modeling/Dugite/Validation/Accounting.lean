import Dugite.Validation.Witnesses

/-!
# The accounting rules

Inputs, deposits, withdrawals and the conservation of value: rules 1 to 3 of phase 1, the rules on
stake and DRep registrations, the check that withdrawals drain their accounts, and the rules that
decide which proposals a transaction may carry. Deposits and refunds are summed over the
certificates against the state before the transaction.
-/

namespace Dugite

/-! ## Inputs -/

/-- The inputs that stand earlier in the list already. -/
def repeatedInputs (seen : List TransactionInput) : List TransactionInput → List TransactionInput
  | [] => []
  | input :: rest =>
    if input ∈ seen then input :: repeatedInputs seen rest
    else repeatedInputs (input :: seen) rest

section Rules
variable (params : ProtocolParameters) (ctx : ValidationContext) (tx : Transaction)
  (utxo : UtxoLookup)

/-- Rule 1. -/
def noInputsRule : List ValidationError := if tx.body.inputs.isEmpty then [.noInputs] else []

/-- Rule 1b: before Conway the inputs are read as a set. -/
def duplicateInputRule : List ValidationError :=
  if 9 ≤ params.protocolVersionMajor then
    (repeatedInputs [] tx.body.inputs).map fun input => .duplicateInput input.display
  else []

/-- Rule 1f: an explicit registration deposit is the key deposit. -/
def registrationDeposit : Certificate → Option Nat
  | .conwayStakeRegistration _ deposit => some deposit
  | .regStakeDeleg _ _ deposit => some deposit
  | .regStakeVoteDeleg _ _ _ deposit => some deposit
  | .voteRegDeleg _ _ deposit => some deposit
  | _ => none

def registrationDepositRule : List ValidationError :=
  if 9 ≤ params.protocolVersionMajor then
    tx.body.certificates.filterMap fun cert =>
      (registrationDeposit cert).bind fun deposit =>
        if deposit ≠ params.keyDeposit then
          some (.stakeRegistrationDepositMismatch deposit params.keyDeposit)
        else none
  else []

/-- The deposit on record for a stake credential before the transaction. -/
def storedDeposit (c : Credential) : Option Nat :=
  ctx.stakeKeyDeposits.bind (·.lookup c.toTypedHash32)

/-- Rule 1g: an explicit refund is the deposit on record, when there is one. -/
def deregistrationRefundRule : List ValidationError :=
  if 9 ≤ params.protocolVersionMajor then
    tx.body.certificates.filterMap fun cert =>
      match cert with
      | .conwayStakeDeregistration c refund =>
        (storedDeposit ctx c).bind fun expected =>
          if refund ≠ expected then some (.stakeDeregistrationRefundMismatch refund expected)
          else none
      | _ => none
  else []

/-- The inputs that are looked up: each once before Conway. -/
def distinctInputs : List TransactionInput :=
  if params.protocolVersionMajor < 9 then tx.body.inputs.eraseDups else tx.body.inputs

/-- Rule 2. -/
def inputNotFoundRule : List ValidationError :=
  (distinctInputs params tx).filterMap fun input =>
    if (utxo input).isSome then none else some (.inputNotFound input.display)

def proposalDepositRule : List ValidationError :=
  if 9 ≤ params.protocolVersionMajor then
    tx.body.proposalProcedures.filterMap fun proposal =>
      if proposal.deposit ≠ params.govActionDeposit then
        some (.proposalDepositIncorrect proposal.deposit params.govActionDeposit)
      else none
  else []

/-! ## Conservation of value -/

/-- The running sums of `calculate_deposits_and_refunds`, and the pools this transaction registers. -/
structure DepositSums where
  deposits : Nat := 0
  refunds : Nat := 0
  newlyRegistered : Finset Hash28 := ∅

namespace DepositSums

section
variable (sums : DepositSums)

def deposit (amount : Nat) : DepositSums := { sums with deposits := wrapAdd sums.deposits amount }

def refund (amount : Nat) : DepositSums := { sums with refunds := wrapAdd sums.refunds amount }

/-- A pool pays its deposit unless it is registered, before the transaction or by it. -/
def pool (operator : Hash28) : DepositSums :=
  if (ctx.registeredPools.any fun pools => decide (operator ∈ pools)) ||
      decide (operator ∈ sums.newlyRegistered) then sums
  else { sums.deposit params.poolDeposit with
    newlyRegistered := insert operator sums.newlyRegistered }

/-- One certificate. The refund of a plain deregistration is the deposit on record. -/
def certificate : Certificate → DepositSums
  | .stakeRegistration _ => sums.deposit params.keyDeposit
  | .stakeDeregistration c => sums.refund ((storedDeposit ctx c).getD params.keyDeposit)
  | .conwayStakeRegistration _ deposit => sums.deposit deposit
  | .conwayStakeDeregistration _ refund => sums.refund refund
  | .poolRegistration p => sums.pool params ctx p.operator
  | .regDRep _ deposit _ => sums.deposit deposit
  | .unregDRep _ refund => sums.refund refund
  | .regStakeDeleg _ _ deposit => sums.deposit deposit
  | .regStakeVoteDeleg _ _ _ deposit => sums.deposit deposit
  | .voteRegDeleg _ _ deposit => sums.deposit deposit
  | _ => sums

end

end DepositSums

def calculateDepositsAndRefunds (certificates : List Certificate) : DepositSums :=
  certificates.foldl (DepositSums.certificate params ctx) {}

/-- The coins of the inputs, the withdrawals and the refunds. -/
def consumedValue : Nat :=
  ((distinctInputs params tx).filterMap utxo |>.map (·.value.coin)).sum +
    tx.body.withdrawals.values.sum +
    (calculateDepositsAndRefunds params ctx tx.body.certificates).refunds

/-- The coins of the outputs, the fee, the deposits and the donation. -/
def producedValue : Nat :=
  (tx.body.outputs.map (·.value.coin)).sum + tx.body.fee +
    (calculateDepositsAndRefunds params ctx tx.body.certificates).deposits +
    tx.body.proposalProcedures.length * params.govActionDeposit + tx.body.donation.getD 0

/-- Rule 3. -/
def valueConservationRule : List ValidationError :=
  let consumed := consumedValue params ctx tx utxo
  if consumed ≠ producedValue params ctx tx then
    [.valueNotConserved (min consumed u64Max)
      (min (tx.body.outputs.map (·.value.coin)).sum u64Max) tx.body.fee]
  else []

/-! ## Stake registrations -/

/-- The credential that a certificate deregisters. -/
def deregisteredCredential : Certificate → Option Credential
  | .stakeDeregistration c => some c
  | .conwayStakeDeregistration c _ => some c
  | _ => none

/-- The credential that a certificate registers. -/
def registeredCredential : Certificate → Option Credential
  | .stakeRegistration c => some c
  | .conwayStakeRegistration c _ => some c
  | .regStakeDeleg c _ _ => some c
  | .voteRegDeleg c _ _ => some c
  | .regStakeVoteDeleg c _ _ _ => some c
  | _ => none

/-- The accounts that the withdrawals of this transaction empty. -/
def withdrawnInTx : List Hash32 :=
  (tx.body.withdrawals.keys.filterMap extractRewardCredential).map (·.toTypedHash32)

/-- A credential is not deregistered while its account holds a balance. -/
def nonZeroBalanceRule : List ValidationError :=
  ctx.rewardAccounts.toList.flatMap fun accounts =>
    (tx.body.certificates.filterMap deregisteredCredential).filterMap fun c =>
      let key := c.toTypedHash32
      if key ∈ withdrawnInTx tx then none
      else (accounts.lookup key).bind fun balance =>
        if 0 < balance then some (.stakeKeyHasNonZeroBalance key.toHex balance) else none

/-- Whether a credential is registered at a point of the walk over the certificates. -/
def currentlyRegistered (accounts : FinMap Hash32 Nat) (deregistered registered : Finset Hash32)
    (key : Hash32) : Bool :=
  ((accounts.lookup key).isSome && !decide (key ∈ deregistered)) || decide (key ∈ registered)

/-- The walk over the certificates, with the credentials deregistered and registered so far. -/
def registrationWalk (accounts : FinMap Hash32 Nat) (deregistered registered : Finset Hash32) :
    List Certificate → List ValidationError
  | [] => []
  | cert :: rest =>
    match deregisteredCredential cert, registeredCredential cert with
    | some c, _ =>
      let key := c.toTypedHash32
      (if currentlyRegistered accounts deregistered registered key then []
        else [.stakeKeyNotRegisteredForDeregistration key.toHex]) ++
      registrationWalk accounts (insert key deregistered) (registered.erase key) rest
    | none, some c =>
      let key := c.toTypedHash32
      (if currentlyRegistered accounts deregistered registered key then
        [.stakeKeyAlreadyRegistered key.toHex] else []) ++
      registrationWalk accounts (deregistered.erase key) (insert key registered) rest
    | none, none => registrationWalk accounts deregistered registered rest

def stakeRegistrationRule : List ValidationError :=
  ctx.rewardAccounts.toList.flatMap fun accounts =>
    registrationWalk accounts ∅ ∅ tx.body.certificates

/-! ## DRep registrations -/

/-- A DRep registers when it is not, deregisters when it is, in the state before the transaction,
and its deposit is the parameter. -/
def drepRule : List ValidationError :=
  if 9 ≤ params.protocolVersionMajor then
    ctx.registeredDreps.toList.flatMap (fun dreps => tx.body.certificates.filterMap fun cert =>
      match cert with
      | .regDRep c _ _ => if c.toTypedHash32 ∈ dreps then
          some (.dRepAlreadyRegistered c.toTypedHash32.toHex) else none
      | _ => none) ++
    ctx.registeredDreps.toList.flatMap (fun dreps => tx.body.certificates.filterMap fun cert =>
      match cert with
      | .unregDRep c _ => if c.toTypedHash32 ∈ dreps then none
          else some (.dRepNotRegistered c.toTypedHash32.toHex)
      | _ => none) ++
    tx.body.certificates.filterMap fun cert =>
      match cert with
      | .regDRep _ deposit _ => if deposit ≠ params.drepDeposit then
          some (.dRepIncorrectDeposit deposit params.drepDeposit) else none
      | _ => none
  else []

/-- The refund of a DRep is the deposit on record. -/
def drepRefundRule : List ValidationError :=
  ctx.registeredDreps.toList.flatMap fun dreps => ctx.drepDeposits.toList.flatMap fun deposits =>
    tx.body.certificates.filterMap fun cert =>
      match cert with
      | .unregDRep c refund =>
        let key := c.toTypedHash32
        if key ∈ dreps then (deposits.lookup key).bind fun stored =>
          if refund ≠ stored then some (.dRepIncorrectRefund key.toHex refund stored) else none
        else none
      | _ => none

/-! ## Withdrawals -/

/-- The account that a withdrawal key names: the hash and bit 4 of the header of any key that is long
enough, and the zero account otherwise. -/
def rewardAccountToHash (rewardAccount : Bytes) : Hash32 :=
  match rewardAccount with
  | [] => 0
  | header :: body =>
    if rewardAccount.length < 29 then 0
    else Hash28.ofBytes (body.take 28) ++ (if header &&& 0x10 = 0 then 0#32 else 0x01000000#32)

/-- `NetworkId::to_u8`. -/
def NetworkId.toU8 : NetworkId → UInt8
  | .testnet => 0
  | .mainnet => 1

/-- Two hexadecimal digits a byte. -/
def hexEncode (bytes : Bytes) : String := String.join (bytes.map fun b => b.toBitVec.toHex)

/-- A withdrawal from the wrong network or from an account that does not exist. -/
def missingAccount (networkId : UInt8) (accounts : FinMap Hash32 Nat) (account : Bytes) : Bool :=
  match account with
  | [] => true
  | header :: _ => decide (header &&& 0x01 ≠ networkId) ||
      (accounts.lookup (rewardAccountToHash account)).isNone

/-- `withdrawals_that_do_not_drain_accounts`: the withdrawals without an account, and those of another
amount than the account holds. -/
def withdrawalsThatDoNotDrainAccounts (networkId : UInt8) (accounts : FinMap Hash32 Nat) :
    List (String × Nat) × List (String × Nat × Nat) :=
  (tx.body.withdrawals.entries.filterMap fun e =>
      if missingAccount networkId accounts e.1 then some (hexEncode e.1, e.2) else none,
    tx.body.withdrawals.entries.filterMap fun e =>
      if missingAccount networkId accounts e.1 then none
      else (accounts.lookup (rewardAccountToHash e.1)).bind fun balance =>
        if balance ≠ e.2 then some (hexEncode e.1, e.2, balance) else none)

def withdrawalRule : List ValidationError :=
  ctx.nodeNetwork.toList.flatMap fun net => ctx.rewardAccounts.toList.flatMap fun accounts =>
    let (missing, incomplete) := withdrawalsThatDoNotDrainAccounts tx net.toU8 accounts
    if missing.isEmpty && incomplete.isEmpty then []
    else if params.protocolVersionMajor ≤ 10 then
      [.withdrawalsNotInRewardsCERTS (missing ++ incomplete.map fun e => (e.1, e.2.1))]
    else
      (if missing.isEmpty then [] else [.conwayWithdrawalsMissingAccounts missing]) ++
      (if incomplete.isEmpty then [] else [.conwayIncompleteWithdrawals incomplete])

/-! ## Proposals -/

def govActionTypeName : GovAction → String
  | .parameterChange _ _ _ => "ParameterChange"
  | .hardForkInitiation _ _ => "HardForkInitiation"
  | .noConfidence _ => "NoConfidence"
  | .updateCommittee _ _ _ _ => "UpdateCommittee"
  | .newConstitution _ _ => "NewConstitution"
  | .treasuryWithdrawals _ _ => "TreasuryWithdrawals"
  | .infoAction => "InfoAction"

def govActionPrevId : GovAction → Option GovActionId
  | .parameterChange prev _ _ => prev
  | .hardForkInitiation prev _ => prev
  | .noConfidence prev => prev
  | .updateCommittee prev _ _ _ => prev
  | .newConstitution prev _ => prev
  | .treasuryWithdrawals _ _ => none
  | .infoAction => none

def govActionHasLineage : GovAction → Bool
  | .treasuryWithdrawals _ _ => false
  | .infoAction => false
  | _ => true

def pvCanFollow (cur new : Nat × Nat) : Bool :=
  (new.1 = cur.1 + 1 && new.2 = 0) || (new.1 = cur.1 && new.2 = cur.2 + 1)

/-- The target version of a hard fork. -/
def GovAction.hardForkTarget : GovAction → Option (Nat × Nat)
  | .hardForkInitiation _ version => some version
  | _ => none

/-- The action that a previous-action id names: an earlier proposal of this transaction, or an open
one. -/
def namedAction (idx : Nat) (prev : GovActionId) : Option GovAction :=
  if prev.transactionId = tx.hash ∧ prev.actionIndex.toNat < idx then
    (tx.body.proposalProcedures[prev.actionIndex.toNat]?).map (·.govAction)
  else ctx.activeProposals.bind (·.lookup prev)

/-- The base version of a hard fork that its target does not follow. -/
def hardforkProposalCantFollow (idx : Nat) : GovAction → Option ((Nat × Nat) × (Nat × Nat))
  | .hardForkInitiation prev target =>
    ctx.enactedGovRoots.bind fun roots =>
      let current := (params.protocolVersionMajor, params.protocolVersionMinor)
      let base := if prev = roots.hardFork ∨ params.protocolVersionMajor + 1 < target.1 then
          some current
        else (prev.bind (namedAction ctx tx idx)).bind (·.hardForkTarget)
      base.bind fun base => if pvCanFollow base target then none else some (target, base)
  | _ => none

def proposalCantFollowRule : List ValidationError :=
  if 9 ≤ params.protocolVersionMajor then
    tx.body.proposalProcedures.zipIdx.filterMap fun e =>
      (hardforkProposalCantFollow params ctx tx e.2 e.1.govAction).map fun versions =>
        .proposalCantFollow (BitVec.ofNat 32 e.2) (govActionPrevId e.1.govAction)
          versions.1.1 versions.1.2 versions.2.1 versions.2.2
  else []

/-- A proposal with a lineage names the root of its purpose, an open proposal, or an earlier one of
this transaction; the first of its purpose names none. -/
def prevActionValid (roots : EnactedGovRoots) (idx : Nat) (action : GovAction) : Bool :=
  match govActionPrevId action with
  | none => (roots.rootFor action).isNone
  | some prev => decide (roots.rootFor action = some prev) ||
      (ctx.activeProposals.any fun active => (active.lookup prev).isSome) ||
      (decide (prev.transactionId = tx.hash) && decide (prev.actionIndex.toNat < idx))

def invalidPrevRule : List ValidationError :=
  if 9 ≤ params.protocolVersionMajor then
    ctx.enactedGovRoots.toList.flatMap fun roots =>
      tx.body.proposalProcedures.zipIdx.filterMap fun e =>
        if govActionHasLineage e.1.govAction && !prevActionValid ctx tx roots e.2 e.1.govAction then
          some (.invalidPrevGovActionId (BitVec.ofNat 32 e.2) (govActionTypeName e.1.govAction)
            (govActionPrevId e.1.govAction))
        else none
  else []

end Rules

end Dugite
