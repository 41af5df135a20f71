import Dugite.Ledger.ConwayTx

/-!
# The deposits a certificate moves

An abstract view of the certificates of a transaction: a book of the deposits on record, by account,
and of the registered pools. A certificate makes at most one entry (`DepositBook.posting`), for a
stake key, a DRep or a new pool. `view_applyCert` says that this is all that applying a certificate
does to the coins of the ledger, apart from closing the reward account of a stake key.
-/

namespace Dugite

open FinMap Function GovernanceState

/-! ## The book -/

/-- What a deposit is held for. -/
inductive DepositAccount where
  | stake (key : Hash32)
  | drep (key : Hash32)
  | pool (id : Hash28)
  deriving DecidableEq

@[ext]
structure DepositBook where
  /-- The deposit on record. -/
  deposit : DepositAccount → Option Nat
  /-- The pools that are registered. -/
  registered : Hash28 → Bool

namespace DepositBook

variable (params : ProtocolParameters)

/-- The entry that a certificate makes: an account, and the deposit then on record for it. -/
def posting (book : DepositBook) : Certificate → Option (DepositAccount × Option Nat)
  | .stakeRegistration c => some (.stake c.toTypedHash32, some params.keyDeposit)
  | .stakeDeregistration c => some (.stake c.toTypedHash32, none)
  | .conwayStakeRegistration c deposit => some (.stake c.toTypedHash32, some deposit)
  | .conwayStakeDeregistration c _ => some (.stake c.toTypedHash32, none)
  | .regStakeDeleg c _ deposit => some (.stake c.toTypedHash32, some deposit)
  | .regStakeVoteDeleg c _ _ deposit => some (.stake c.toTypedHash32, some deposit)
  | .voteRegDeleg c _ deposit => some (.stake c.toTypedHash32, some deposit)
  | .regDRep c deposit _ => some (.drep c.toTypedHash32, some deposit)
  | .unregDRep c _ => some (.drep c.toTypedHash32, none)
  | .poolRegistration p =>
    if book.registered p.operator then none else some (.pool p.operator, some params.poolDeposit)
  | _ => none

/-- The pool that a certificate registers. -/
def registersPool : Certificate → Option Hash28
  | .poolRegistration p => some p.operator
  | _ => none

/-- The book after a certificate. -/
def post (book : DepositBook) (cert : Certificate) : DepositBook where
  deposit := match book.posting params cert with
    | some (account, new) => update book.deposit account new
    | none => book.deposit
  registered := match registersPool cert with
    | some id => update book.registered id true
    | none => book.registered

/-- The book after some certificates. -/
def after (book : DepositBook) (certificates : List Certificate) : DepositBook :=
  certificates.foldl (post params) book

/-- What an entry adds to the deposits: the new amount, less the one that was on record. -/
def moved (book : DepositBook) (cert : Certificate) : Int :=
  match book.posting params cert with
  | some (account, new) => (new.getD 0 : Int) - (book.deposit account).getD 0
  | none => 0

end DepositBook

/-! ## The view of a state -/

/-- What votes and certificates leave of the governance state. -/
def GovernanceState.settled (gov : GovernanceState) : GovernanceState where
  committeeExpiration := gov.committeeExpiration
  proposals := gov.proposals
  forest := gov.forest
  enacted := gov.enacted
  constitution := gov.constitution
  committeeThreshold := gov.committeeThreshold
  drepPulsingState := gov.drepPulsingState

/-- What decides over the coins of a state, apart from the sums. -/
@[ext]
structure CoinView where
  utxo : UtxoSubState
  epochs : EpochSubState
  gov : GovernanceState
  book : DepositBook
  /-- The balance of a reward account, zero when there is none. -/
  balance : Hash32 → Nat

/-- The deposits on record in three maps. -/
def depositOf (stakeKeys : FinMap Hash32 Nat) (dreps : FinMap Hash32 DRepRegistration)
    (pools : FinMap Hash28 Nat) : DepositAccount → Option Nat
  | .stake key => stakeKeys.lookup key
  | .drep key => (dreps.lookup key).map (·.deposit)
  | .pool id => pools.lookup id

def SubStates.book (s : SubStates) : DepositBook where
  deposit := depositOf s.certs.stakeKeyDeposits s.gov.dreps s.certs.poolDeposits
  registered id := (s.certs.poolParams.lookup id).isSome

def SubStates.view (s : SubStates) : CoinView where
  utxo := s.utxo
  epochs := s.epochs
  gov := s.gov.settled
  book := s.book
  balance := s.certs.rewardAccounts.weightAt id

/-- A certificate on the view: its entry in the book, and the balance of a stake key that it
deregisters. -/
def CoinView.apply (w : CoinView) (cert : Certificate) : CoinView :=
  { w with
    book := w.book.post w.epochs.protocolParams cert
    balance := match deregisteredCredential cert with
      | some c => update w.balance c.toTypedHash32 0
      | none => w.balance }

/-! ## What leaves the view alone -/

/-- Two governance states that differ in votes and delegations only. -/
structure SameCoins (gov gov' : GovernanceState) : Prop where
  settled : gov'.settled = gov.settled
  deposits : ∀ key, (gov'.dreps.lookup key).map (·.deposit) = (gov.dreps.lookup key).map (·.deposit)

variable (gov : GovernanceState)

theorem SameCoins.refl : SameCoins gov gov := ⟨rfl, fun _ => rfl⟩

theorem SameCoins.trans {gov gov' gov'' : GovernanceState} (h : SameCoins gov gov')
    (h' : SameCoins gov' gov'') : SameCoins gov gov'' where
  settled := h'.settled.trans h.settled
  deposits key := (h'.deposits key).trans (h.deposits key)

theorem SameCoins.foldl {α : Type} {f : GovernanceState → α → GovernanceState}
    (h : ∀ gov a, SameCoins gov (f gov a)) (l : List α) (gov : GovernanceState) :
    SameCoins gov (l.foldl f gov) := by
  induction l generalizing gov with
  | nil => exact .refl gov
  | cons a l ih => exact (h gov a).trans (ih _)

theorem SameCoins.view {s : SubStates} {gov : GovernanceState} (h : SameCoins s.gov gov) :
    { s with gov := gov }.view = s.view := by
  refine CoinView.ext rfl rfl h.settled (DepositBook.ext (funext fun account => ?_) rfl) rfl
  cases account with
  | stake key => rfl
  | drep key => exact h.deposits key
  | pool id => rfl

theorem sameCoins_modifyDRep {f : DRepRegistration → DRepRegistration}
    (hf : ∀ drep, (f drep).deposit = drep.deposit) (key : Hash32) (gov : GovernanceState) :
    SameCoins gov (gov.modifyDRep key f) := by
  unfold modifyDRep
  cases hdrep : gov.dreps.lookup key with
  | none => exact .refl gov
  | some drep =>
  refine ⟨rfl, fun key' => ?_⟩
  rw [lookup_insert_ite]
  split
  · next heq => rw [heq, hdrep, Option.map_some, Option.map_some, hf]
  · rfl

theorem sameCoins_undelegateVote (stakeCred : Hash32) (gov : GovernanceState) :
    SameCoins gov (gov.undelegateVote stakeCred).1 := by
  unfold undelegateVote
  split
  · exact sameCoins_modifyDRep (by intro; rfl) _ gov
  · exact .refl gov

theorem sameCoins_voteDelegations (delegations : FinMap Hash32 DRep) :
    SameCoins gov { gov with voteDelegations := delegations } := ⟨rfl, fun _ => rfl⟩

theorem sameCoins_delegateVote (preserve : Bool) (stakeCred : Hash32) (drep : DRep)
    (gov : GovernanceState) : SameCoins gov (gov.delegateVote preserve stakeCred drep) := by
  have hbase := (sameCoins_undelegateVote stakeCred gov).trans (sameCoins_voteDelegations _
    ((gov.undelegateVote stakeCred).1.voteDelegations.insert stakeCred drep))
  unfold delegateVote
  dsimp only
  split
  · exact hbase
  split
  · exact hbase
  split
  · split
    · exact (hbase.trans (sameCoins_modifyDRep (by intro; rfl) _ _)).trans
        (sameCoins_modifyDRep (by intro; rfl) _ _)
    · exact hbase.trans (sameCoins_modifyDRep (by intro; rfl) _ _)
  · exact hbase.trans (sameCoins_modifyDRep (by intro; rfl) _ _)

namespace SubStates

variable (ctx : RuleContext) (s : SubStates)

@[simp] theorem view_delegateVote (c : Credential) (drep : DRep) :
    (s.delegateVote c drep).view = s.view :=
  (sameCoins_delegateVote _ _ _ _).view

@[simp] theorem view_recordPointer (certIndex : Nat) (c : Credential) :
    (s.recordPointer ctx certIndex c).view = s.view := by
  unfold recordPointer
  split <;> rfl

@[simp] theorem view_updateDRep (c : Credential) (anchor : Option Anchor) :
    (s.updateDRep ctx c anchor).view = s.view :=
  (sameCoins_modifyDRep (by intro; rfl) _ _).view

/-! ## What makes an entry -/

section Entries
variable (stakeKeys : FinMap Hash32 Nat) (dreps : FinMap Hash32 DRepRegistration)
  (pools : FinMap Hash28 Nat) (key : Hash32)

theorem depositOf_insert_stake (deposit : Nat) :
    depositOf (stakeKeys.insert key deposit) dreps pools =
      update (depositOf stakeKeys dreps pools) (.stake key) (some deposit) := by
  funext account
  cases account <;> simp [depositOf, lookup_insert_ite, update_apply]

theorem depositOf_erase_stake : depositOf (stakeKeys.erase key) dreps pools =
      update (depositOf stakeKeys dreps pools) (.stake key) none := by
  funext account
  cases account <;> simp [depositOf, lookup_erase_ite, update_apply]

theorem depositOf_insert_drep (drep : DRepRegistration) :
    depositOf stakeKeys (dreps.insert key drep) pools =
      update (depositOf stakeKeys dreps pools) (.drep key) (some drep.deposit) := by
  funext account
  cases account with
  | drep key' =>
    simp only [depositOf, lookup_insert_ite, update_apply, DepositAccount.drep.injEq]
    split <;> rfl
  | _ => simp [depositOf]

theorem depositOf_erase_drep : depositOf stakeKeys (dreps.erase key) pools =
      update (depositOf stakeKeys dreps pools) (.drep key) none := by
  funext account
  cases account with
  | drep key' =>
    simp only [depositOf, lookup_erase_ite, update_apply, DepositAccount.drep.injEq]
    split <;> rfl
  | _ => simp [depositOf]

end Entries

/-- The account of a new stake key holds nothing, as the missing one did. -/
theorem weightAt_openAccount (key : Hash32) (accounts : FinMap Hash32 Nat) :
    FinMap.weightAt id (if (accounts.lookup key).isSome then accounts else accounts.insert key 0) =
      accounts.weightAt id := by
  funext key'
  split
  · rfl
  next hnone =>
  rw [weightAt_insert]
  split
  · next heq =>
    rw [heq, FinMap.weightAt, Option.not_isSome_iff_eq_none.1 hnone]
    rfl
  · rfl

variable (c : Credential)

theorem view_registerStakeKey (deposit : Nat) : (s.registerStakeKey c deposit).view =
      { s.view with book := { s.view.book with
          deposit := update s.view.book.deposit (.stake c.toTypedHash32) (some deposit) } } :=
  CoinView.ext rfl rfl rfl (DepositBook.ext (depositOf_insert_stake _ _ _ _ _) rfl)
    (weightAt_openAccount _ _)

theorem view_deregisterStakeKey (refund : Nat) : (s.deregisterStakeKey c refund).view =
      { s.view with
        book := { s.view.book with
          deposit := update s.view.book.deposit (.stake c.toTypedHash32) none }
        balance := update s.view.balance c.toTypedHash32 0 } := by
  have hgov := (sameCoins_undelegateVote c.toTypedHash32 s.gov).trans (sameCoins_voteDelegations _
    ((s.gov.undelegateVote c.toTypedHash32).1.voteDelegations.erase c.toTypedHash32))
  have hview := SameCoins.view (s := { s with certs := { s.certs with
    stakeKeyDeposits := s.certs.stakeKeyDeposits.erase c.toTypedHash32
    rewardAccounts := s.certs.rewardAccounts.erase c.toTypedHash32 } }) hgov
  refine hview.trans (CoinView.ext rfl rfl rfl
    (DepositBook.ext (depositOf_erase_stake _ _ _ _) rfl) (funext fun key => ?_))
  exact (weightAt_erase ..).trans (update_apply ..).symm

theorem view_deregisterDRep : (s.deregisterDRep c).view = { s.view with book := { s.view.book with
          deposit := update s.view.book.deposit (.drep c.toTypedHash32) none } } := by
  unfold deregisterDRep
  cases hdrep : s.gov.dreps.lookup c.toTypedHash32 with
  | none =>
    have hnone : s.view.book.deposit (.drep c.toTypedHash32) = none := by
      simp [view, book, depositOf, hdrep]
    rw [← hnone, update_eq_self]
  | some drep =>
    exact CoinView.ext rfl rfl rfl (DepositBook.ext (depositOf_erase_drep _ _ _ _) rfl) rfl

theorem view_registerPool (params : PoolParams) :
    (s.registerPool params).view = s.view.apply (.poolRegistration params) := by
  cases hregistered : s.book.registered params.operator with
  | true =>
    have hsome : (s.certs.poolParams.lookup params.operator).isSome = true := hregistered
    refine CoinView.ext ?_ ?_ ?_ (DepositBook.ext ?_ ?_) ?_ <;>
      simp only [registerPool, hsome, if_true, view, CoinView.apply, DepositBook.post,
        DepositBook.posting, DepositBook.registersPool, hregistered, deregisteredCredential]
    · rfl
    · rw [← hregistered, update_eq_self]
      rfl
  | false =>
    have hnone : (s.certs.poolParams.lookup params.operator).isSome = false := hregistered
    refine CoinView.ext ?_ ?_ ?_ (DepositBook.ext ?_ (funext fun id => ?_)) ?_ <;>
      simp only [registerPool, hnone, if_false, view, CoinView.apply, DepositBook.post,
        DepositBook.posting, DepositBook.registersPool, hregistered, deregisteredCredential,
        Bool.false_eq_true]
    · funext account
      cases account <;> simp [book, depositOf, lookup_insert_ite, update_apply]
    · rw [update_apply]
      simp only [book, lookup_insert_ite]
      split <;> rfl

/-- Applying a certificate does to the view what the book says. -/
theorem view_applyCert (e : Certificate × Nat) : (s.applyCert ctx e).view = s.view.apply e.1 := by
  obtain ⟨cert, certIndex⟩ := e
  cases cert with
  | stakeRegistration c =>
    exact (view_registerStakeKey _ c _).trans (by
      rw [view_recordPointer]
      rfl)
  | stakeDeregistration c => exact view_deregisterStakeKey s c _
  | conwayStakeRegistration c deposit | regStakeDeleg c poolHash deposit =>
    exact view_registerStakeKey s c deposit
  | conwayStakeDeregistration c refund => exact view_deregisterStakeKey s c refund
  | poolRegistration params => exact view_registerPool s params
  | regDRep c deposit anchor =>
    exact CoinView.ext rfl rfl rfl (DepositBook.ext (depositOf_insert_drep _ _ _ _ _) rfl) rfl
  | unregDRep c refund => exact view_deregisterDRep s c
  | regStakeVoteDeleg c poolHash drep deposit | voteRegDeleg c drep deposit =>
    exact (view_delegateVote _ c drep).trans (view_registerStakeKey s c deposit)
  | stakeVoteDelegation c poolHash drep | voteDelegation c drep => exact view_delegateVote _ c drep
  | updateDRep c anchor => exact view_updateDRep ctx s c anchor
  | _ => rfl

end SubStates

end Dugite
