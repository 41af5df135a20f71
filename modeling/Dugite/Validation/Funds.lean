import Dugite.Ledger.ConwayTx
import Dugite.Validation.Authorisation

/-!
# Funds move only when authorised

Three kinds of funds leave when a transaction is applied: the outputs it spends, which are those of
its collateral when it is marked invalid, and the balances of the reward accounts it withdraws from.
`funds_authorised_iff` says when an accepted transaction has the authorisation of all their owners.
-/

namespace Dugite

open Checks Positions List Credential Crypto

/-! ## What a transaction takes -/

/-- The inputs that applying the transaction spends. -/
def spentInputs (tx : Transaction) : List TransactionInput :=
  if tx.isValid then tx.body.inputs else tx.body.collateral

/-- The reward accounts after the withdrawals; a transaction that is marked invalid withdraws
nothing. -/
def accountsAfter (tx : Transaction) (accounts : FinMap Hash32 Nat) : FinMap Hash32 Nat :=
  if tx.isValid then drainWithdrawalAccounts tx accounts else accounts

/-- The credential of the account that a withdrawal key names. -/
def rewardAccountCredential (rewardAccount : Bytes) : Credential :=
  match rewardAccount with
  | [] => .verificationKey 0
  | header :: body =>
    if rewardAccount.length < 29 then .verificationKey 0
    else rewardCredential header (Hash28.ofBytes (body.take 28))

section Specification
variable (v : Validator) (tx : Transaction) (utxo : UtxoLookup) (accounts : FinMap Hash32 Nat)

/-- A redeemer ran this script for an input. -/
def SpendRan (input : TransactionInput) (h : Hash28) : Prop :=
  ∃ i : Nat, (sortInputs tx.body.inputs)[i]? = some input ∧ PlutusRan v tx utxo .spend i h

/-- A redeemer ran this script for a withdrawal from the script's account. -/
def WithdrawalRan (h : Hash28) : Prop :=
  ∃ ordered, ledgerOrderedWithdrawals v.T tx.body.withdrawals = .ok ordered ∧
    ∃ (i amount : Nat), ordered[i]? = some (.script h, amount) ∧ PlutusRan v tx utxo .reward i h

/-- Every owner of the funds that the transaction takes has authorised it. -/
structure FundsAuthorised : Prop where
  /-- The key of every spent or collateral input signed. -/
  keys : ∀ input ∈ tx.body.inputs ++ tx.body.collateral, ∀ keyHash,
    inputCredential utxo input = some (.verificationKey keyHash) → Signed v tx keyHash
  /-- The script of every spent input ran. -/
  scripts : ∀ input ∈ spentInputs tx, ∀ h, inputCredential utxo input = some (.script h) →
    Authorised v tx utxo (SpendRan v tx utxo input) (.script h)
  /-- The owner of every account whose balance changes signed, or ran. -/
  accounts : ∀ account balance, accounts.lookup account = some balance →
    (accountsAfter tx accounts).lookup account ≠ some balance →
      ∃ c : Credential, c.toTypedHash32 = account ∧ Authorised v tx utxo (WithdrawalRan v tx utxo) c

/-- The condition on the transaction and the state. -/
structure FundsCovered : Prop where
  /-- The scripts of the inputs of a valid transaction are covered. -/
  inputs : tx.isValid = true → ∀ input ∈ tx.body.inputs, ∀ h, inputScript utxo input = some h →
    ScriptCovered v tx utxo h
  /-- Only native scripts that pass lock the collateral of a transaction marked invalid. -/
  collateral : tx.isValid = false → ∀ input ∈ tx.body.collateral, ∀ h,
    inputScript utxo input = some h → NativePasses v tx utxo h
  /-- The credentials of the accounts that lose a balance are covered. -/
  accounts : tx.isValid = true → ∀ account ∈ tx.body.withdrawals.keys, ∀ balance,
    accounts.lookup (rewardAccountToHash account) = some balance → 0 < balance →
      Covered v tx utxo (rewardAccountCredential account)

end Specification

/-! ## Inputs -/

section Inputs
variable {v : Validator} {ctx : ValidationContext} {tx : Transaction} {utxo : UtxoLookup}
variable (hp : Passed v ctx tx utxo) (hideal : IdealHashing v.crypto v.T tx utxo)
  (hindexed : Indexed v.crypto tx utxo) {input : TransactionInput} {h : Hash28}

theorem inputScript_iff :
    inputScript utxo input = some h ↔ inputCredential utxo input = some (.script h) := by
  unfold inputScript inputCredential
  cases utxo input with
  | none => simp
  | some out =>
  simp only [Option.bind_some, Address.scriptHash]
  cases out.address.paymentCredential with
  | none => simp
  | some c => cases c <;> simp [scriptHash]

include hp hideal in
/-- The script of an input that phase 2 can run is one that phase 1 asks a redeemer for. -/
theorem provided_of_input
    (hinput : input ∈ tx.body.inputs) (hscript : inputScript utxo input = some h)
    (hplutus : HashedAsPlutus v.crypto v.T tx utxo h) : providedPlutus v.crypto tx utxo h = true :=
  provided_of_available hideal ((witnessCompleteness_eq_nil hp.witnesses).inputs input hinput _
    (inputScript_iff.1 hscript)) hplutus

/-- An item with this script needs a redeemer. -/
def redeemerDue (crypto : Crypto) (tx : Transaction) (utxo : UtxoLookup) (script : Option Hash28) :
    Option Unit :=
  (onlyPlutus (providedPlutus crypto tx utxo) script).map fun _ => ()

theorem redeemerDue_eq_some {crypto : Crypto} {script : Option Hash28} {u : Unit} :
    redeemerDue crypto tx utxo script = some u ↔
      ∃ h, script = some h ∧ providedPlutus crypto tx utxo h = true := by
  simp only [redeemerDue, Option.map_eq_some_iff, onlyPlutus_eq_some, and_true]

include hp hideal hindexed in
/-- No input up to one that needs a redeemer is listed twice: the last redeemer would point past
the inputs that need one. -/
theorem nodup_take_of_redeemerDue
    (hvalid : tx.isValid = true) (hplutus : hasPlutusScripts tx = true) {i : Nat}
    (hi : ((sortedInputs tx).map fun input =>
      redeemerDue v.crypto tx utxo (inputScript utxo input))[i]? = some (some ())) :
    ((sortedInputs tx).take (i + 1)).Nodup := by
  refine nodup_take_of_keeps (sortedInputs_pairwise tx) ?_ hi
  intro j w hj
  obtain ⟨x, hx, hdue⟩ := getElem?_map_eq_some.1 hj
  obtain ⟨h, hscript, hprovided⟩ := redeemerDue_eq_some.1 hdue
  have hmarked : (plutusPositions v.crypto tx utxo .spend)[j]? = some (some h) :=
    getElem?_onlyPlutus.2 ⟨x, hx, hscript, hprovided⟩
  obtain ⟨h', hran⟩ := plutusRan_of_marked hp hindexed hvalid hplutus (by decide) hmarked
  obtain ⟨hposition, hashed⟩ := hran.resolved
  obtain ⟨y, hy, hyscript⟩ := getElem?_map_eq_some.1 hposition
  have hymem := mem_sortInputs.1 (mem_of_getElem? hy)
  exact getElem?_map_eq_some.2 ⟨y, hy, redeemerDue_eq_some.2
    ⟨h', hyscript, provided_of_input hp hideal hymem hyscript hashed⟩⟩

include hp hideal hindexed in
/-- The Plutus script of an input is run for it. -/
theorem spendRan_of_provided (hvalid : tx.isValid = true) (hplutus : hasPlutusScripts tx = true)
    (hinput : input ∈ tx.body.inputs) (hscript : inputScript utxo input = some h)
    (hprovided : providedPlutus v.crypto tx utxo h = true) : SpendRan v tx utxo input h := by
  have hmem : input ∈ sortedInputs tx := (perm_insertionSort _ _).mem_iff.2 hinput
  obtain ⟨i, hi⟩ := mem_iff_getElem?.1 hmem
  have hnodup := nodup_take_of_redeemerDue hp hideal hindexed hvalid hplutus
    (getElem?_map_eq_some.2 ⟨input, hi, redeemerDue_eq_some.2 ⟨h, hscript, hprovided⟩⟩)
  have hsame := (getElem?_dedupAdjacent hnodup).trans hi
  refine ⟨i, hsame, plutusRan_of_same hp hindexed hvalid hplutus (by decide)
    (getElem?_onlyPlutus.2 ⟨input, hi, hscript, hprovided⟩)
    (getElem?_map_eq_some.2 ⟨input, hsame, hscript⟩)⟩

include hp hideal in
/-- A script that ran for an input is covered. -/
theorem SpendRan.covered (hran : SpendRan v tx utxo input h) : ScriptCovered v tx utxo h := by
  obtain ⟨i, hi, hran⟩ := hran
  obtain ⟨hposition, hashed⟩ := hran.resolved
  obtain ⟨y, hy, hscript⟩ := getElem?_map_eq_some.1 hposition
  obtain rfl := Option.some.inj (hy.symm.trans hi)
  have hmem := mem_sortInputs.1 (mem_of_getElem? hi)
  exact .inr ⟨provided_of_input hp hideal hmem hscript hashed, hran.hasPlutusScripts⟩

/-- A script that locks collateral is no Plutus script of a transaction with Plutus witnesses. -/
theorem hasPlutusScripts_of_scriptCollateral (hp : Passed v ctx tx utxo)
    (hinput : input ∈ tx.body.collateral) (hscript : inputScript utxo input = some h) :
    hasPlutusScripts tx = false := by
  rw [Bool.eq_false_iff]
  intro hplutus
  have hcollateral := (hp.plutus hplutus).collateral
  unfold checkCollateral at hcollateral
  rw [if_neg (by simpa using ne_nil_of_mem hinput)] at hcollateral
  simp only [append_eq_nil_iff, ite_eq_left_iff, reduceCtorEq, imp_false, not_not,
    List.isEmpty_iff, filter_eq_nil_iff] at hcollateral
  exact hcollateral.1.1.1.1.2 input hinput (by rw [hscript]; rfl)

end Inputs

/-! ## Withdrawals -/

section Withdrawals
variable {v : Validator} {ctx : ValidationContext} {tx : Transaction} {utxo : UtxoLookup}
variable (hp : Passed v ctx tx utxo) (hideal : IdealHashing v.crypto v.T tx utxo)
  (hindexed : Indexed v.crypto tx utxo)
  {account : Bytes} {h : Hash28} {c : Credential} {amount : Nat}

/-- A reward address names the account of its credential. -/
theorem extractRewardCredential_of_reward {net : NetworkId}
    (h : Address.fromBytes account = .ok (.reward net c)) :
    extractRewardCredential account = some c := by
  obtain ⟨header, body, rfl, hlen, -, htype, rfl⟩ := fromBytes_eq_reward h
  have hbit := addressType_lowBit header
  unfold extractRewardCredential rewardCredential
  dsimp only
  rw [if_neg (Nat.not_lt.2 hlen)]
  obtain hkey | hscript := htype
  · rw [hkey] at hbit ⊢
    split at hbit
    · next hzero => rw [if_pos rfl, if_pos hzero]
    · exact absurd hbit (by decide)
  rw [hscript] at hbit ⊢
  split at hbit
  · exact absurd hbit (by decide)
  · next hone => rw [if_neg (by decide), if_pos rfl, if_neg hone]

include hp hideal in
/-- The script of an ordered withdrawal that phase 2 can run is one that phase 1 asks a redeemer
for. -/
theorem provided_of_withdrawal {ordered : List (Credential × Nat)}
    (hordered : ledgerOrderedWithdrawals v.T tx.body.withdrawals = .ok ordered)
    (hmem : (.script h, amount) ∈ ordered)
    (hplutus : HashedAsPlutus v.crypto v.T tx utxo h) : providedPlutus v.crypto tx utxo h = true := by
  obtain ⟨out, hout, hsorted⟩ := bind_eq_ok.1 hordered
  cases hsorted
  have hstake : .script h ∈ out.map (·.1) :=
    mem_map_of_mem (f := (·.1)) ((perm_insertionSort _ out).mem_iff.1 hmem)
  obtain ⟨e, hentry, net, haddr⟩ := (mem_withdrawalStakes hout).1 hstake
  exact provided_of_available hideal ((witnessCompleteness_eq_nil hp.witnesses).withdrawals e.1
    (mem_map_of_mem hentry) _ (extractRewardCredential_of_reward haddr)) hplutus

include hp hideal hindexed in
/-- When a script withdrawal needs a redeemer, the withdrawals can be ordered, and the redeemers
that are due stand at the same positions in both orders. -/
theorem reward_redeemers_due (hvalid : tx.isValid = true) (hplutus : hasPlutusScripts tx = true)
    (haccount : account ∈ tx.body.withdrawals.keys) (hscript : withdrawalScript account = some h)
    (hprovided : providedPlutus v.crypto tx utxo h = true) :
    ∃ ordered, ledgerOrderedWithdrawals v.T tx.body.withdrawals = .ok ordered ∧
      tx.body.withdrawals.keys.map (fun account =>
        redeemerDue v.crypto tx utxo (withdrawalScript account)) =
        ordered.map fun e => redeemerDue v.crypto tx utxo e.1.scriptHash := by
  -- what runs at a position that phase 1 asks about
  have hruns : ∀ {i : Nat} {h : Hash28},
      (plutusPositions v.crypto tx utxo .reward)[i]? = some (some h) → ∃ h',
        (phase2Scripts v.T tx utxo .reward)[i]? = some (some h') ∧
          HashedAsPlutus v.crypto v.T tx utxo h' := by
    intro i h hmarked
    obtain ⟨h', hran⟩ := plutusRan_of_marked hp hindexed hvalid hplutus (by decide) hmarked
    exact ⟨h', hran.resolved⟩
  obtain ⟨i, hi⟩ := mem_iff_getElem?.1 haccount
  obtain ⟨h₀, hh₀, -⟩ :=
    hruns (getElem?_onlyPlutus.2 ⟨account, hi, hscript, hprovided⟩)
  cases hordered : ledgerOrderedWithdrawals v.T tx.body.withdrawals with
  | error e =>
    rw [phase2Scripts, hordered] at hh₀
    cases hh₀
  | ok ordered =>
  refine ⟨ordered, rfl, eq_of_perm_of_keeps ?_ ?_⟩
  · have hperm := (@plutusPositions_reward_perm v.crypto v.T tx utxo ordered hordered).map
      (Option.map fun _ => ())
    rw [plutusPositions, phase1Scripts, map_map, map_map] at hperm
    exact hperm
  · intro j u hj
    obtain ⟨x, hx, hdue⟩ := getElem?_map_eq_some.1 hj
    obtain ⟨h₁, hx₁, hprovided₁⟩ := redeemerDue_eq_some.1 hdue
    obtain ⟨h', hposition, hashed⟩ :=
      hruns (getElem?_onlyPlutus.2 ⟨x, hx, hx₁, hprovided₁⟩)
    rw [phase2Scripts, hordered] at hposition
    obtain ⟨⟨c, amount⟩, he, hc⟩ := getElem?_map_eq_some.1 hposition
    obtain rfl := scriptHash_eq_some.1 hc
    exact getElem?_map_eq_some.2 ⟨_, he, redeemerDue_eq_some.2 ⟨h', rfl,
      provided_of_withdrawal hp hideal hordered (mem_of_getElem? he) hashed⟩⟩

include hp hideal hindexed in
/-- The Plutus script of a withdrawal is run for a withdrawal from its account. -/
theorem withdrawalRan_of_provided
    (hvalid : tx.isValid = true) (hplutus : hasPlutusScripts tx = true)
    (haccount : account ∈ tx.body.withdrawals.keys) (hscript : withdrawalScript account = some h)
    (hprovided : providedPlutus v.crypto tx utxo h = true) : WithdrawalRan v tx utxo h := by
  obtain ⟨ordered, hordered, hdue⟩ :=
    reward_redeemers_due hp hideal hindexed hvalid hplutus haccount hscript hprovided
  have hmem : some h ∈ ordered.map fun e => onlyPlutus (providedPlutus v.crypto tx utxo)
      e.1.scriptHash := by
    refine (plutusPositions_reward_perm hordered).mem_iff.1 (mem_map.2 ⟨account, haccount, ?_⟩)
    exact onlyPlutus_eq_some.2 ⟨hscript, hprovided⟩
  obtain ⟨⟨c, amount⟩, he, hc⟩ := mem_map.1 hmem
  obtain rfl := scriptHash_eq_some.1 (onlyPlutus_eq_some.1 hc).1
  obtain ⟨i, hi⟩ := mem_iff_getElem?.1 he
  have hdue' : (ordered.map fun e => redeemerDue v.crypto tx utxo e.1.scriptHash)[i]? =
      some (some ()) := getElem?_map_eq_some.2 ⟨_, hi, redeemerDue_eq_some.2 ⟨h, rfl, hprovided⟩⟩
  rw [← hdue] at hdue'
  obtain ⟨x, hx, hxdue⟩ := getElem?_map_eq_some.1 hdue'
  obtain ⟨h', hx', hprovided'⟩ := redeemerDue_eq_some.1 hxdue
  refine ⟨ordered, hordered, i, amount, hi, plutusRan_of_same hp hindexed hvalid hplutus (by decide)
    (getElem?_onlyPlutus.2 ⟨x, hx, hx', hprovided'⟩) ?_⟩
  rw [phase2Scripts, hordered]
  exact getElem?_map_eq_some.2 ⟨_, hi, rfl⟩

include hp hideal in
/-- A script that ran for a withdrawal is covered. -/
theorem WithdrawalRan.covered (hran : WithdrawalRan v tx utxo h) : ScriptCovered v tx utxo h := by
  obtain ⟨ordered, hordered, i, amount, hi, hran⟩ := hran
  exact .inr ⟨provided_of_withdrawal hp hideal hordered (mem_of_getElem? hi) hran.resolved.2,
    hran.hasPlutusScripts⟩

end Withdrawals

/-! ## Accounts -/

section Accounts

theorem toTypedHash32_rewardAccountCredential (account : Bytes) :
    (rewardAccountCredential account).toTypedHash32 = rewardAccountToHash account := by
  unfold rewardAccountCredential rewardAccountToHash
  cases account with
  | nil => rfl
  | cons header body =>
  dsimp only
  split
  · rfl
  · unfold rewardCredential
    split <;> rfl

/-- A key of a script account shows its script. -/
theorem withdrawalScript_of_rewardAccountCredential {account : Bytes} {h : Hash28}
    (hscript : rewardAccountCredential account = .script h) :
    withdrawalScript account = some h := by
  unfold rewardAccountCredential rewardCredential at hscript
  unfold withdrawalScript
  cases account with
  | nil => cases hscript
  | cons header body =>
  dsimp only at hscript ⊢
  split at hscript
  · cases hscript
  next hlen =>
  split at hscript
  · cases hscript
  · next hbit =>
    cases hscript
    rw [if_neg hlen, if_neg hbit]

/-- The accounts that lose their balance are those of the withdrawal keys with a balance. -/
theorem drained_iff {tx : Transaction} {accounts : FinMap Hash32 Nat} {account : Hash32}
    {balance : Nat} (hbalance : accounts.lookup account = some balance) :
    (accountsAfter tx accounts).lookup account ≠ some balance ↔ tx.isValid = true ∧ 0 < balance ∧
        ∃ key ∈ tx.body.withdrawals.keys, rewardAccountToHash key = account := by
  unfold accountsAfter
  cases tx.isValid with
  | false => simp [hbalance]
  | true =>
  rw [if_pos rfl, lookup_drain, ← mem_map]
  split
  · next hmem => simp [hbalance, hmem, Nat.pos_iff_ne_zero, eq_comm]
  · next hmem => simp [hbalance, hmem]

end Accounts

/-! ## The whole -/

section Whole
variable {v : Validator} {ctx : ValidationContext} {tx : Transaction} {utxo : UtxoLookup}
variable {accounts : FinMap Hash32 Nat}
variable (hp : Passed v ctx tx utxo) (hideal : IdealHashing v.crypto v.T tx utxo)
  (hindexed : Indexed v.crypto tx utxo)

theorem spentInputs_valid (hvalid : tx.isValid = true) : spentInputs tx = tx.body.inputs :=
  if_pos hvalid

theorem spentInputs_invalid (hvalid : tx.isValid = false) : spentInputs tx = tx.body.collateral := by
  rw [spentInputs, hvalid]
  rfl

include hp hideal in
theorem funds_covered_of_authorised (hfunds : FundsAuthorised v tx utxo accounts) :
    FundsCovered v tx utxo accounts where
  inputs := by
    intro hvalid input hinput h hscript
    rw [← spentInputs_valid hvalid] at hinput
    obtain hnative | hran := hfunds.scripts input hinput h (inputScript_iff.1 hscript)
    · exact .inl ((nativeRan_iff hp).1 hnative)
    · exact hran.covered hp hideal
  collateral := by
    intro hvalid input hinput h hscript
    have hspent : input ∈ spentInputs tx := by rwa [spentInputs_invalid hvalid]
    obtain hnative | ⟨i, -, hran⟩ := hfunds.scripts input hspent h (inputScript_iff.1 hscript)
    · exact (nativeRan_iff hp).1 hnative
    · have hno := hasPlutusScripts_of_scriptCollateral hp hinput hscript
      rw [hran.hasPlutusScripts] at hno
      cases hno
  accounts := by
    intro hvalid account haccount balance hbalance hpos
    obtain ⟨c, hc, hauth⟩ := hfunds.accounts _ balance hbalance
      ((drained_iff hbalance).2 ⟨hvalid, hpos, account, haccount, rfl⟩)
    rw [← toTypedHash32_rewardAccountCredential] at hc
    rw [← toTypedHash32_injective hc]
    cases c with
    | verificationKey keyHash => exact (signed_iff hp).1 hauth
    | script h =>
      obtain hnative | hran := hauth
      · exact .inl ((nativeRan_iff hp).1 hnative)
      · exact hran.covered hp hideal

include hp hideal hindexed in
theorem funds_authorised_of_covered
    (hfunds : FundsCovered v tx utxo accounts) : FundsAuthorised v tx utxo accounts where
  keys := by
    intro input hinput keyHash hkey
    rw [signed_iff hp]
    have hcomplete := witnessCompleteness_eq_nil hp.witnesses
    obtain hinput | hinput := mem_append.1 hinput
    · exact hcomplete.inputs input hinput _ hkey
    · exact hcomplete.collateral input hinput _ hkey
  scripts := by
    intro input hinput h hcredential
    have hscript := inputScript_iff.2 hcredential
    cases hvalid : tx.isValid with
    | false =>
      rw [spentInputs_invalid hvalid] at hinput
      exact .inl ((nativeRan_iff hp).2 (hfunds.collateral hvalid input hinput h hscript))
    | true =>
    rw [spentInputs_valid hvalid] at hinput
    obtain hnative | ⟨hprovided, hplutus⟩ := hfunds.inputs hvalid input hinput h hscript
    · exact .inl ((nativeRan_iff hp).2 hnative)
    · exact .inr (spendRan_of_provided hp hideal hindexed hvalid hplutus hinput hscript hprovided)
  accounts := by
    intro account balance hbalance hchanged
    obtain ⟨hvalid, hpos, key, hkey, rfl⟩ := (drained_iff hbalance).1 hchanged
    refine ⟨rewardAccountCredential key, toTypedHash32_rewardAccountCredential key, ?_⟩
    have hcovered := hfunds.accounts hvalid key hkey balance hbalance hpos
    cases hc : rewardAccountCredential key with
    | verificationKey keyHash =>
      rw [hc] at hcovered
      exact (signed_iff hp).2 hcovered
    | script h =>
    rw [hc] at hcovered
    obtain hnative | ⟨hprovided, hplutus⟩ := hcovered
    · exact .inl ((nativeRan_iff hp).2 hnative)
    · exact .inr (withdrawalRan_of_provided hp hideal hindexed hvalid hplutus hkey
        (withdrawalScript_of_rewardAccountCredential hc) hprovided)

/-- An accepted transaction takes only funds whose owners have authorised it, exactly when the
scripts of its inputs and of the accounts it drains are covered, no key of such an account is
without witness, and no script that does not pass natively locks the collateral it takes. -/
theorem funds_authorised_iff (v : Validator) (ctx : ValidationContext) (tx : Transaction)
    (utxo : UtxoLookup) (accounts : FinMap Hash32 Nat)
    (haccepted : validateTransactionWithContext v ctx tx utxo = .ok ())
    (hindexed : Indexed v.crypto tx utxo) (hideal : IdealHashing v.crypto v.T tx utxo) :
    FundsAuthorised v tx utxo accounts ↔ FundsCovered v tx utxo accounts :=
  have hp := passed_of_accepted haccepted
  ⟨funds_covered_of_authorised hp hideal, funds_authorised_of_covered hp hideal hindexed⟩

end Whole

/-! ## Two transactions -/

/-- The hash of the Plutus V3 script `07`. -/
def plutusLock : Hash28 := plain.blake2b224Tagged 3 [7]

/-- The first output of transaction 1 is locked by a Plutus script, which the second has to refer
to. -/
def referenceUtxo : UtxoLookup := fun input =>
  if input = ⟨1, 0⟩ then
    some { address := .enterprise .testnet (.script plutusLock), value := .lovelace 5 }
  else if input = ⟨1, 1⟩ then some { nativeOutput 5 with scriptRef := some (.plutusV3 [7]) }
  else none

/-- Spend the first and refer to the second, without any redeemer. -/
def referenceSpend : Transaction where
  hash := 2
  body := { inputs := [⟨1, 0⟩], referenceInputs := [⟨1, 1⟩], outputs := [nativeOutput 3], fee := 2 }

/-- A Plutus script that is only referred to does not have to run: the transaction has no redeemer
and no Plutus witness, which switches the redeemer checks and phase 2 off. -/
theorem reference_spend_not_authorised :
    validateTransactionWithContext plainValidator emptyContext referenceSpend referenceUtxo =
        .ok () ∧
      Indexed plain referenceSpend referenceUtxo ∧
      IdealHashing plain emptyTranslation referenceSpend referenceUtxo ∧
      ¬FundsAuthorised plainValidator referenceSpend referenceUtxo ∅ := by
  refine ⟨by decide +kernel, fun tag => ?_, ?_, fun hfunds => ?_⟩
  · cases tag <;> decide +kernel
  · have hscripts : hashedScripts emptyTranslation referenceSpend referenceUtxo = [[3, 7]] := by
      decide +kernel
    intro a ha b hb _
    rw [hscripts, mem_singleton] at ha hb
    rw [ha, hb]
  · have hlocked : inputCredential referenceUtxo ⟨1, 0⟩ = some (.script plutusLock) := by
      decide +kernel
    obtain ⟨ns, hns, -⟩ | ⟨i, -, -, -, r, hr, -⟩ := hfunds.scripts ⟨1, 0⟩ mem_cons_self _ hlocked
    · have hnone : suppliedNativeScripts plainValidator.crypto plainValidator.T referenceSpend
          referenceUtxo = [] := rfl
      cases hns
    · cases hr

/-- Spend an output locked by the native script that always passes, with the script as witness. -/
def nativeSpend : Transaction where
  hash := 2
  body := { inputs := [⟨1, 0⟩], outputs := [nativeOutput 3], fee := 2 }
  witnessSet := { nativeScripts := [.scriptAll []] }

theorem nativeSpend_covered : FundsCovered plainValidator nativeSpend nativeUtxo ∅ where
  inputs := by
    intro _ input hinput h hscript
    obtain rfl := mem_singleton.1 hinput
    have hlocked : inputScript nativeUtxo ⟨1, 0⟩ = some nativePass := by decide +kernel
    obtain rfl := Option.some.inj (hlocked.symm.trans hscript)
    exact .inl ⟨.scriptAll [], mem_cons_self, rfl⟩
  collateral := by
    intro hvalid
    cases hvalid
  accounts := by
    intro _ account haccount
    cases haccount

theorem native_spend_authorised :
    validateTransactionWithContext plainValidator emptyContext nativeSpend nativeUtxo = .ok () ∧
      FundsAuthorised plainValidator nativeSpend nativeUtxo ∅ := by
  have haccepted : validateTransactionWithContext plainValidator emptyContext nativeSpend nativeUtxo =
      .ok () := by decide +kernel
  have hindexed : Indexed plain nativeSpend nativeUtxo := by
    intro tag
    cases tag <;> decide +kernel
  have hideal : IdealHashing plain emptyTranslation nativeSpend nativeUtxo := by
    have hscripts : hashedScripts emptyTranslation nativeSpend nativeUtxo = [[0]] := by
      decide +kernel
    intro a ha b hb _
    rw [hscripts, mem_singleton] at ha hb
    rw [ha, hb]
  exact ⟨haccepted, (funds_authorised_iff plainValidator emptyContext nativeSpend nativeUtxo ∅
    haccepted hindexed hideal).2 nativeSpend_covered⟩

end Dugite
