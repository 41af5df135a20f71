import Dugite.Plutus.Resolve

/-!
# The order of withdrawals and voters

The maps of the body list reward accounts by their bytes and voters by their derived order, which
has keys before scripts; the ledger has scripts before keys. Both order by role first, and keys or
scripts among themselves by their hash. So the Plutus scripts stand at the same positions in both
orders exactly if there is no key beside them in their role (`EarlyFirst`).
-/

namespace Dugite

open Checks Positions List

theorem isLE_compare_bitVec {w : Nat} {a b : BitVec w} :
    (compare a b).isLE = true ↔ a.toNat ≤ b.toNat := by
  change (compareOfLessAndEq a b).isLE = true ↔ _
  unfold compareOfLessAndEq
  split_ifs with hlt heq
  · simpa using Nat.le_of_lt hlt
  · simp [heq]
  · have := mt BitVec.eq_of_toNat_eq heq
    simp only [Ordering.isLE_gt, Bool.false_eq_true, false_iff]
    bv_omega

/-! ## The order of the ledger -/

/-- The place of a credential in the order of the ledger. -/
def Credential.ledgerKey (c : Credential) : ℕ ×ₗ ℕ := toLex (c.ledgerRank, c.toHash.toNat)

theorem Credential.ledgerKey_injective : Function.Injective ledgerKey := by
  intro a b hab
  obtain ⟨hrank, hhash⟩ := Prod.mk.inj (toLex.injective hab)
  have hhash := BitVec.eq_of_toNat_eq hhash
  cases a <;> cases b <;> first | exact congrArg _ hhash | cases hrank

theorem Credential.isLE_cmpLedger {a b : Credential} :
    (a.cmpLedger b).isLE = true ↔ a.ledgerKey ≤ b.ledgerKey := by
  rw [cmpLedger, Ordering.isLE_then_iff_or, ledgerKey, ledgerKey, Prod.Lex.toLex_le_toLex,
    Std.compare_eq_lt, Std.compare_eq_iff_eq, isLE_compare_bitVec]

/-- The ledger has scripts before keys. -/
theorem Credential.ledgerKey_le {a b : Credential} (ha : a.scriptHash.isSome)
    (hb : b.scriptHash = none) : a.ledgerKey ≤ b.ledgerKey := by
  cases a with
  | verificationKey => cases ha
  | script =>
    cases b with
    | verificationKey => exact Prod.Lex.toLex_le_toLex.2 (.inl Nat.one_pos)
    | script => cases hb

/-- The place of a voter in the order of the ledger. -/
def Voter.ledgerKey : Voter → ℕ ×ₗ (ℕ ×ₗ ℕ)
  | constitutionalCommittee c => toLex (0, c.ledgerKey)
  | drep c => toLex (1, c.ledgerKey)
  | stakePool h => toLex (2, toLex (0, h.toNat))

theorem Voter.ledgerKey_injective : Function.Injective ledgerKey := by
  intro a b hab
  cases a <;> cases b <;>
    simp_all [ledgerKey, Credential.ledgerKey_injective.eq_iff, BitVec.toNat_inj]

theorem Voter.isLE_cmpLedger {a b : Voter} :
    (a.cmpLedger b).isLE = true ↔ a.ledgerKey ≤ b.ledgerKey := by
  cases a <;> cases b <;>
    simp [cmpLedger, ledgerRank, ledgerKey, Credential.isLE_cmpLedger, isLE_compare_bitVec,
      Prod.Lex.toLex_le_toLex, Nat.compare_eq_ite_lt]

instance : Std.Total fun a b : Credential => (a.cmpLedger b).isLE = true :=
  ⟨fun a b => by simpa only [Credential.isLE_cmpLedger] using le_total a.ledgerKey b.ledgerKey⟩

instance : IsTrans Credential fun a b => (a.cmpLedger b).isLE = true :=
  ⟨fun a b c => by simpa only [Credential.isLE_cmpLedger] using le_trans⟩

instance : Std.Total fun a b : Voter => (a.cmpLedger b).isLE = true :=
  ⟨fun a b => by simpa only [Voter.isLE_cmpLedger] using le_total a.ledgerKey b.ledgerKey⟩

instance : IsTrans Voter fun a b => (a.cmpLedger b).isLE = true :=
  ⟨fun a b c => by simpa only [Voter.isLE_cmpLedger] using le_trans⟩

/-! ## Voters -/

/-- The derived order has keys before scripts, both by their hash. -/
theorem Credential.of_compare_lt {a b : Credential} (h : compare a b = .lt) :
    (a.scriptHash.isSome → b.scriptHash.isSome) ∧
      (a.scriptHash.isSome = b.scriptHash.isSome → a.ledgerKey ≤ b.ledgerKey) := by
  have hhash : ∀ {x y : Hash28}, (compare x y).then .eq = .lt → x.toNat ≤ y.toNat := fun h =>
    isLE_compare_bitVec.1 (by simp_all)
  cases a <;> cases b
  case verificationKey.verificationKey x y =>
    exact ⟨id, fun _ => Prod.Lex.toLex_le_toLex.2 (.inr ⟨rfl, hhash h⟩)⟩
  case verificationKey.script => exact ⟨fun _ => rfl, nofun⟩
  case script.verificationKey => cases h
  case script.script x y => exact ⟨id, fun _ => Prod.Lex.toLex_le_toLex.2 (.inr ⟨rfl, hhash h⟩)⟩

/-- The map lists the voters by role, and in a role keys before scripts. -/
theorem earlyFirst_voters (votes : VotingProcedures) :
    EarlyFirst (fun a b => (a.cmpLedger b).isLE = true) Voter.ledgerRank (·.scriptHash.isSome)
      votes.keys := by
  refine pairwise_map.2 (votes.sorted.imp fun {a b} hab => ?_)
  have hcredential : ∀ {x y : Credential}, (compare x y).then .eq = .lt → compare x y = .lt :=
    fun h => by simp_all
  simp only [Voter.isLE_cmpLedger]
  generalize a.1 = a at hab ⊢
  generalize b.1 = b at hab ⊢
  have hmembers : ∀ {x y : Credential} {rank : Nat}, compare x y = .lt →
      rank = rank ∧ (x.scriptHash.isSome → y.scriptHash.isSome) ∧
        (x.scriptHash.isSome = y.scriptHash.isSome →
          toLex (rank, x.ledgerKey) ≤ toLex (rank, y.ledgerKey)) := fun h =>
    ⟨rfl, (Credential.of_compare_lt h).1, fun heq =>
      Prod.Lex.toLex_le_toLex.2 (.inr ⟨rfl, (Credential.of_compare_lt h).2 heq⟩)⟩
  cases a with
  | constitutionalCommittee x =>
    cases b with
    | constitutionalCommittee y => exact .inr (hmembers (hcredential hab))
    | drep | stakePool => exact .inl (by simp [Voter.ledgerRank])
  | drep x =>
    cases b with
    | constitutionalCommittee => cases hab
    | drep y => exact .inr (hmembers (hcredential hab))
    | stakePool => exact .inl (by simp [Voter.ledgerRank])
  | stakePool x =>
    cases b with
    | constitutionalCommittee | drep => cases hab
    | stakePool y =>
      have hlt : (compare x y).then .eq = .lt := hab
      have hle : x.toNat ≤ y.toNat := isLE_compare_bitVec.1 (by simp_all)
      exact .inr ⟨rfl, id, fun _ => Prod.Lex.toLex_le_toLex.2
        (.inr ⟨rfl, Prod.Lex.toLex_le_toLex.2 (.inr ⟨rfl, hle⟩)⟩)⟩

/-- The Plutus voters stand at the same positions in both orders exactly if in their roles all
voters are scripts. -/
theorem voters_inPlace_iff (plutus : Hash28 → Bool) (votes : VotingProcedures) :
    votes.keys.map (fun v => onlyPlutus plutus v.scriptHash) =
        (ledgerOrderedVoters votes).map (fun v => onlyPlutus plutus v.scriptHash) ↔
      ∀ voter ∈ votes.keys, (onlyPlutus plutus voter.scriptHash).isSome → ∀ other ∈ votes.keys,
        other.ledgerRank = voter.ledgerRank → other.scriptHash.isSome := by
  refine (earlyFirst_voters votes).map_insertionSort_iff (n := 3) (fun v _ => ?_)
    (fun a b h => ?_) (fun a b hab hba => ?_) fun v hv => ?_
  · cases v <;> simp [Voter.ledgerRank]
  · rw [Voter.isLE_cmpLedger]
    revert h
    cases a <;> cases b <;> simp [Voter.ledgerRank, Voter.ledgerKey, Voter.scriptHash,
      Prod.Lex.toLex_le_toLex]
    all_goals exact Credential.ledgerKey_le
  · exact Voter.ledgerKey_injective
      (le_antisymm (Voter.isLE_cmpLedger.1 hab) (Voter.isLE_cmpLedger.1 hba))
  · rw [Option.isSome_eq_false_iff, Option.isNone_iff_eq_none] at hv
    rw [hv]
    rfl

/-! ## Reward accounts -/

theorem ofBeBytes_lt (bs : Bytes) : ofBeBytes bs < 256 ^ bs.length := by
  induction bs with
  | nil => decide
  | cons b bs ih =>
    have hb := Nat.mul_le_mul_right (256 ^ bs.length) (Nat.succ_le_of_lt b.toNat_lt)
    rw [Nat.succ_mul] at hb
    rw [ofBeBytes_cons, length_cons, Nat.pow_succ]
    omega

/-- The order of byte strings is the order of the numbers that they begin with. -/
theorem ofBeBytes_take_le {n : Nat} {a b : Bytes} (ha : n ≤ a.length) (hb : n ≤ b.length)
    (h : compare a b = .lt) : ofBeBytes (a.take n) ≤ ofBeBytes (b.take n) := by
  induction n generalizing a b with
  | zero => exact Nat.le_refl _
  | succ n ih =>
    cases a with
    | nil => cases ha
    | cons x a =>
    cases b with
    | nil => cases hb
    | cons y b =>
    rw [length_cons, Nat.succ_le_succ_iff] at ha hb
    have hlex : (compare x y).then (compare a b) = .lt := List.compareLex_cons_cons.symm.trans h
    rw [take_succ_cons, take_succ_cons, ofBeBytes_cons, ofBeBytes_cons, length_take_of_le ha,
      length_take_of_le hb]
    rcases Ordering.then_eq_lt.1 hlex with hlt | ⟨heq, hrest⟩
    · have hlt : x < y := Std.compare_eq_lt.1 hlt
      have hbound := ofBeBytes_lt (a.take n)
      have hmul := Nat.mul_le_mul_right (256 ^ n) (Nat.succ_le_of_lt (UInt8.lt_iff_toNat_lt.1 hlt))
      rw [length_take_of_le ha] at hbound
      rw [Nat.succ_mul] at hmul
      omega
    · rw [Std.compare_eq_iff_eq.1 heq]
      exact Nat.add_le_add_left (ih ha hb hrest) _

/-- The header of a reward account is that of the keys or that of the scripts of the network. -/
theorem header_of_reward {header : UInt8} {net : NetworkId}
    (hnet : NetworkId.fromU8 (header &&& 0x0F) = some net)
    (htype : addressType header = 0b1110 ∨ addressType header = 0b1111) :
    ∃ key script : UInt8, key &&& 0x10 = 0 ∧ script &&& 0x10 ≠ 0 ∧ compare script key = .gt ∧
      ((key, script) = if net = .testnet then (0xE0, 0xF0) else (0xE1, 0xF1)) ∧
      (header = key ∨ header = script) := by
  have hall : ∀ n net, NetworkId.fromU8 (UInt8.ofFin n &&& 0x0F) = some net →
      addressType (UInt8.ofFin n) = 0b1110 ∨ addressType (UInt8.ofFin n) = 0b1111 →
      if net = .testnet then UInt8.ofFin n = 0xE0 ∨ UInt8.ofFin n = 0xF0
      else UInt8.ofFin n = 0xE1 ∨ UInt8.ofFin n = 0xF1 := by
    intro n net
    cases net <;> revert n <;> decide +kernel
  have hheader := hall header.toFin net hnet htype
  cases net with
  | testnet => exact ⟨0xE0, 0xF0, by decide, by decide, by decide, rfl, hheader⟩
  | mainnet => exact ⟨0xE1, 0xF1, by decide, by decide, by decide, rfl, hheader⟩

variable {net : NetworkId} {a b : Bytes} {x y : Credential}

/-- The bytes of the accounts of a network list keys before scripts, both by their hash. -/
theorem compare_accounts (ha : Address.fromBytes a = .ok (.reward net x))
    (hb : Address.fromBytes b = .ok (.reward net y)) (hab : compare a b = .lt) :
    (x.scriptHash.isSome → y.scriptHash.isSome) ∧
      (x.scriptHash.isSome = y.scriptHash.isSome → x.ledgerKey ≤ y.ledgerKey) := by
  obtain ⟨h, body, rfl, hlen, hnet, htype, rfl⟩ := fromBytes_eq_reward ha
  obtain ⟨h', body', rfl, hlen', hnet', htype', rfl⟩ := fromBytes_eq_reward hb
  have hlex : (compare h h').then (compare body body') = .lt :=
    List.compareLex_cons_cons.symm.trans hab
  have hlen := Nat.le_of_succ_le_succ hlen
  have hlen' := Nat.le_of_succ_le_succ hlen'
  have hhash : compare body body' = .lt → (Hash28.ofBytes (body.take 28)).toNat ≤
      (Hash28.ofBytes (body'.take 28)).toNat := by
    intro hlt
    have hle := ofBeBytes_take_le hlen hlen' hlt
    have hbound : ofBeBytes (body'.take 28) < 2 ^ 224 := by
      have hbound := ofBeBytes_lt (body'.take 28)
      rwa [length_take_of_le hlen'] at hbound
    rw [Hash28.ofBytes, Hash28.ofBytes, BitVec.toNat_ofNat, BitVec.toNat_ofNat,
      Nat.mod_eq_of_lt (hle.trans_lt hbound), Nat.mod_eq_of_lt hbound]
    exact hle
  obtain ⟨key, script, hkey, hscript, hgt, hpair, hh⟩ := header_of_reward hnet htype
  obtain ⟨_, _, -, -, -, hpair', hh'⟩ := header_of_reward hnet' htype'
  obtain ⟨rfl, rfl⟩ := Prod.mk.inj (hpair'.trans hpair.symm)
  rw [rewardCredential, rewardCredential]
  have hsame : ∀ {k : UInt8}, (compare k k).then (compare body body') = .lt →
      compare body body' = .lt := fun h => by simpa using h
  rcases hh with rfl | rfl <;> rcases hh' with rfl | rfl
  · rw [if_pos hkey, if_pos hkey]
    exact ⟨id, fun _ => Prod.Lex.toLex_le_toLex.2 (.inr ⟨rfl, hhash (hsame hlex)⟩)⟩
  · rw [if_pos hkey, if_neg hscript]
    exact ⟨fun _ => rfl, nofun⟩
  · rw [hgt] at hlex
    cases hlex
  · rw [if_neg hscript, if_neg hscript]
    exact ⟨id, fun _ => Prod.Lex.toLex_le_toLex.2 (.inr ⟨rfl, hhash (hsame hlex)⟩)⟩

/-! ## Withdrawals -/

/-- The accounts of the withdrawals are all of one network, as the check of the network demands. -/
def OneNetwork (withdrawals : SortedMap Bytes Nat) : Prop :=
  ∃ net, ∀ account ∈ withdrawals.keys, ∀ net' c,
    Address.fromBytes account = .ok (.reward net' c) → net' = net

variable {T : PlutusTranslation} {entries : List (Bytes × Nat)} {out : List (Credential × Nat)}

theorem withdrawalStakes_cons {e : Bytes × Nat} : withdrawalStakes T (e :: entries) = .ok out ↔
    ∃ net stake rest, Address.fromBytes e.1 = .ok (.reward net stake) ∧
      withdrawalStakes T entries = .ok rest ∧ out = (stake, e.2) :: rest := by
  rw [withdrawalStakes]
  split
  · next herr => simp [herr]
  · next net stake haddr =>
    simp only [bind_eq_ok, pure, Except.pure, Except.ok.injEq, haddr]
    constructor
    · rintro ⟨rest, hrest, rfl⟩
      exact ⟨net, stake, rest, rfl, hrest, rfl⟩
    · rintro ⟨_, _, rest, heq, hrest, rfl⟩
      cases heq
      exact ⟨rest, hrest, rfl⟩
  · next other hnot haddr =>
    simp only [reduceCtorEq, false_iff]
    rintro ⟨net, stake, rest, heq, -⟩
    exact hnot net stake (Except.ok.inj (haddr.symm.trans heq))

/-- The withdrawals can be ordered if their accounts are reward addresses. -/
theorem exists_withdrawalStakes_iff : (∃ out, withdrawalStakes T entries = .ok out) ↔
    ∀ e ∈ entries, ∃ net c, Address.fromBytes e.1 = .ok (.reward net c) := by
  induction entries with
  | nil => simp [withdrawalStakes]
  | cons e entries ih =>
    simp only [withdrawalStakes_cons, forall_mem_cons, ← ih]
    constructor
    · rintro ⟨-, net, stake, rest, haddr, hrest, -⟩
      exact ⟨⟨net, stake, haddr⟩, rest, hrest⟩
    · rintro ⟨⟨net, stake, haddr⟩, rest, hrest⟩
      exact ⟨_, net, stake, rest, haddr, hrest, rfl⟩

/-- The credentials are those of the accounts. -/
theorem mem_withdrawalStakes (h : withdrawalStakes T entries = .ok out) {c : Credential} :
    c ∈ out.map (·.1) ↔ ∃ e ∈ entries, ∃ net, Address.fromBytes e.1 = .ok (.reward net c) := by
  induction entries generalizing out with
  | nil =>
    cases h
    simp
  | cons e entries ih =>
    obtain ⟨net, stake, rest, haddr, hrest, rfl⟩ := withdrawalStakes_cons.1 h
    rw [map_cons, mem_cons, ih hrest, exists_mem_cons_iff, haddr]
    refine or_congr_left ⟨?_, ?_⟩
    · rintro rfl
      exact ⟨net, rfl⟩
    · rintro ⟨_, heq⟩
      cases heq
      rfl

/-- The credentials carry the scripts that phase 1 sees in the accounts. -/
theorem withdrawalStakes_scripts (h : withdrawalStakes T entries = .ok out) :
    entries.map (fun e => withdrawalScript e.1) = out.map fun e => e.1.scriptHash := by
  induction entries generalizing out with
  | nil =>
    cases h
    rfl
  | cons e entries ih =>
    obtain ⟨net, stake, rest, haddr, hrest, rfl⟩ := withdrawalStakes_cons.1 h
    rw [map_cons, map_cons, ih hrest, withdrawalScript_of_reward haddr]

/-- The map lists the accounts of keys before those of scripts. -/
theorem earlyFirst_stakes (hsorted : entries.Pairwise fun a b => compare a.1 b.1 = .lt)
    (hnet : ∀ e ∈ entries, ∀ net' c, Address.fromBytes e.1 = .ok (.reward net' c) → net' = net)
    (h : withdrawalStakes T entries = .ok out) :
    EarlyFirst (fun a b => (a.cmpLedger b).isLE = true) (fun _ => 0) (·.scriptHash.isSome)
      (out.map (·.1)) := by
  induction entries generalizing out with
  | nil =>
    cases h
    exact .nil
  | cons e entries ih =>
    obtain ⟨net', stake, rest, haddr, hrest, rfl⟩ := withdrawalStakes_cons.1 h
    obtain ⟨hhead, htail⟩ := pairwise_cons.1 hsorted
    obtain rfl := hnet e mem_cons_self net' stake haddr
    refine pairwise_cons.2 ⟨fun c hc => ?_, ih htail
      (fun e he => hnet e (mem_cons_of_mem _ he)) hrest⟩
    obtain ⟨e', he', net, haddr'⟩ := (mem_withdrawalStakes hrest).1 hc
    obtain rfl := hnet e' (mem_cons_of_mem _ he') net c haddr'
    obtain ⟨hscript, hkey⟩ := compare_accounts haddr haddr' (hhead e' he')
    exact .inr ⟨rfl, hscript, fun heq => Credential.isLE_cmpLedger.2 (hkey heq)⟩

/-- Plutus credentials stand at the same positions in both orders exactly if there is no key. -/
theorem stakes_inPlace_iff {plutus : Hash28 → Bool} {stakes : List Credential}
    (h : EarlyFirst (fun a b => (a.cmpLedger b).isLE = true) (fun _ => 0) (·.scriptHash.isSome)
      stakes) : stakes.map (fun c => onlyPlutus plutus c.scriptHash) =
        (stakes.insertionSort fun a b => (a.cmpLedger b).isLE).map
          (fun c => onlyPlutus plutus c.scriptHash) ↔
      ((∃ c ∈ stakes, (onlyPlutus plutus c.scriptHash).isSome) →
        ∀ c ∈ stakes, c.scriptHash.isSome) := by
  refine (h.map_insertionSort_iff (n := 1) (fun _ _ => Nat.one_pos) ?_ ?_ ?_).trans ?_
  · rintro a b (hlt | ⟨-, ha, hb⟩)
    · cases hlt
    · rw [Option.isSome_eq_false_iff, Option.isNone_iff_eq_none] at hb
      exact Credential.isLE_cmpLedger.2 (Credential.ledgerKey_le ha hb)
  · exact fun a b hab hba => Credential.ledgerKey_injective
      (le_antisymm (Credential.isLE_cmpLedger.1 hab) (Credential.isLE_cmpLedger.1 hba))
  · intro c hc
    rw [Option.isSome_eq_false_iff, Option.isNone_iff_eq_none] at hc
    rw [hc]
    rfl
  · simp only [forall_const, forall_exists_index, and_imp]

/-- Where there is a Plutus withdrawal, the withdrawals can be ordered and the Plutus ones stand at
the same positions in both orders exactly if all accounts are of scripts. -/
theorem withdrawals_inPlace_iff {withdrawals : SortedMap Bytes Nat} (hnet : OneNetwork withdrawals)
    {plutus : Hash28 → Bool}
    (hsome : ∃ h, some h ∈ withdrawals.keys.map fun k => onlyPlutus plutus (withdrawalScript k)) :
    (∃ ordered, ledgerOrderedWithdrawals T withdrawals = .ok ordered ∧
      withdrawals.keys.map (fun k => onlyPlutus plutus (withdrawalScript k)) =
        ordered.map fun e => onlyPlutus plutus e.1.scriptHash) ↔
    ∀ account ∈ withdrawals.keys, ∃ net h,
      Address.fromBytes account = .ok (.reward net (.script h)) := by
  obtain ⟨net, hnet⟩ := hnet
  have hkeys : ∀ {P : Bytes → Prop}, (∀ account ∈ withdrawals.keys, P account) ↔
      ∀ e ∈ withdrawals.entries, P e.1 := by
    simp [SortedMap.keys]
  rw [hkeys] at hnet ⊢
  -- The positions in the two orders are those of the credentials.
  have hplace : ∀ out, withdrawalStakes T withdrawals.entries = .ok out →
      (withdrawals.keys.map (fun k => onlyPlutus plutus (withdrawalScript k)) =
        (out.insertionSort fun a b => (a.1.cmpLedger b.1).isLE).map
          (fun e => onlyPlutus plutus e.1.scriptHash) ↔
        ∀ c ∈ out.map (·.1), c.scriptHash.isSome) := by
    intro out hout
    have hmarks : withdrawals.keys.map (fun k => onlyPlutus plutus (withdrawalScript k)) =
        (out.map (·.1)).map fun c => onlyPlutus plutus c.scriptHash := by
      have hmap := congrArg (List.map (onlyPlutus plutus)) (withdrawalStakes_scripts hout)
      rw [map_map, map_map] at hmap
      rw [SortedMap.keys, map_map, map_map]
      exact hmap
    have hsorted : (out.insertionSort fun a b => (a.1.cmpLedger b.1).isLE).map
        (fun e => onlyPlutus plutus e.1.scriptHash) =
        ((out.map (·.1)).insertionSort fun a b => (a.cmpLedger b).isLE).map
          fun c => onlyPlutus plutus c.scriptHash := by
      rw [← map_insertionSort _ _ Prod.fst out fun _ _ _ _ => Iff.rfl, map_map]
      rfl
    rw [hmarks] at hsome ⊢
    rw [hsorted, stakes_inPlace_iff (earlyFirst_stakes withdrawals.sorted hnet hout)]
    refine ⟨fun h => h ?_, fun h _ => h⟩
    obtain ⟨h, hmem⟩ := hsome
    obtain ⟨c, hc, heq⟩ := mem_map.1 hmem
    exact ⟨c, hc, by rw [heq]; rfl⟩
  constructor
  · rintro ⟨ordered, hok, heq⟩ e he
    obtain ⟨out, hout, hok⟩ := bind_eq_ok.1 hok
    cases hok
    obtain ⟨net', c, haddr⟩ := exists_withdrawalStakes_iff.1 ⟨out, hout⟩ e he
    have hscript := (hplace out hout).1 heq c ((mem_withdrawalStakes hout).2 ⟨e, he, net', haddr⟩)
    obtain ⟨h, hh⟩ := Option.isSome_iff_exists.1 hscript
    exact ⟨net', h, Credential.scriptHash_eq_some.1 hh ▸ haddr⟩
  · intro hall
    obtain ⟨out, hout⟩ := (exists_withdrawalStakes_iff (T := T)).2 fun e he =>
      (hall e he).imp fun net ⟨h, haddr⟩ => ⟨_, haddr⟩
    refine ⟨_, bind_eq_ok.2 ⟨out, hout, rfl⟩, (hplace out hout).2 fun c hc => ?_⟩
    obtain ⟨e, he, net', haddr⟩ := (mem_withdrawalStakes hout).1 hc
    obtain ⟨_, h, haddr'⟩ := hall e he
    cases haddr.symm.trans haddr'
    rfl

end Dugite
