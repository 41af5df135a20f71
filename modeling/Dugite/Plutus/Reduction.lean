import Dugite.Plutus.Term

/-!
# Call-by-value reduction

What a closed term means, without a machine: arguments are evaluated from left to right, a lambda
applied to a value is replaced by its body with the value put in, and a builtin that has all its
forces and arguments is replaced by what it computes. A term that is no value and cannot be reduced
is stuck. There is no rule for `error`, so a term that comes to it is stuck there.

`δ` is what the builtins compute, and `onConstants` says whether `case` may take a constant apart.
-/

namespace Dugite.Uplc

open List Option

namespace Term

/-- The builtin at the head of a term, with the forces and the arguments it has been given. -/
def spine : Term → Option (BuiltinId × Nat × List Term)
  | .builtin id => some (id, 0, [])
  | .force t => match t.spine with
    | some (id, k, []) => some (id, k + 1, [])
    | _ => none
  | .app f a => match f.spine with
    | some (id, k, args) => some (id, k, args ++ [a])
    | none => none
  | _ => none

/-- A builtin that lacks forces or arguments is a value. -/
inductive IsValue : Term → Prop
  | const (c : Constant) : IsValue (.const c)
  | lam (body : Term) : IsValue (.lam body)
  | delay (body : Term) : IsValue (.delay body)
  | constr (tag : Nat) {args : List Term} : (∀ a ∈ args, IsValue a) → IsValue (.constr tag args)
  | builtin (id : BuiltinId) : IsValue (.builtin id)
  | force {t : Term} {id : BuiltinId} {k : Nat} : IsValue t → t.spine = some (id, k, []) →
      k < (arityOf id).1 → k + 1 < (arityOf id).1 ∨ 0 < (arityOf id).2 → IsValue (.force t)
  | app {f v : Term} {id : BuiltinId} {args : List Term} : IsValue f →
      f.spine = some (id, (arityOf id).1, args) → args.length + 1 < (arityOf id).2 →
      IsValue v → IsValue (.app f v)

end Term

open Term

/-- The branch that a constant selects among `n`, and what it is applied to. -/
inductive Selects (n : Nat) : Constant → Nat → List Constant → Prop
  | boolFalse : n ≤ 2 → Selects n (.bool false) 0 []
  | boolTrue : n ≤ 2 → Selects n (.bool true) 1 []
  | unit : n ≤ 1 → Selects n .unit 0 []
  | nil {ty : TypeTag} : n ≤ 2 → Selects n (.protoList ty []) 1 []
  | cons {ty : TypeTag} {head : Constant} {tail : List Constant} : n ≤ 2 →
      Selects n (.protoList ty (head :: tail)) 0 [head, .protoList ty tail]
  | pair {ta tb : TypeTag} {a b : Constant} : n ≤ 1 → Selects n (.protoPair ta tb a b) 0 [a, b]
  | integer {i : Nat} : i < n → Selects n (.integer i) i []

section
variable (δ : BuiltinId → List Term → Option Term) (onConstants : Bool)

inductive Red : Term → Term → Prop
  | beta {body v : Term} : IsValue v → Red (.app (.lam body) v) (body.inst [v] 0)
  | forceDelay {t : Term} : Red (.force (.delay t)) t
  | builtinApp {f v r : Term} {id : BuiltinId} {args : List Term} : IsValue f →
      f.spine = some (id, (arityOf id).1, args) → IsValue v → args.length + 1 = (arityOf id).2 →
      δ id (args ++ [v]) = some r → Red (.app f v) r
  | builtinForce {t r : Term} {id : BuiltinId} {k : Nat} : IsValue t →
      t.spine = some (id, k, []) → k + 1 = (arityOf id).1 → (arityOf id).2 = 0 →
      δ id [] = some r → Red (.force t) r
  | caseConstr {tag : Nat} {args branches : List Term} {b : Term} : (∀ a ∈ args, IsValue a) →
      branches[tag]? = some b → Red (.case (.constr tag args) branches) (args.foldl .app b)
  | caseConst {c : Constant} {branches : List Term} {i : Nat} {payload : List Constant} {b : Term} :
      onConstants = true → Selects branches.length c i payload → branches[i]? = some b →
      Red (.case (.const c) branches) ((payload.map .const).foldl .app b)
  | appLeft {f f' a : Term} : Red f f' → Red (.app f a) (.app f' a)
  | appRight {f a a' : Term} : IsValue f → Red a a' → Red (.app f a) (.app f a')
  | force {t t' : Term} : Red t t' → Red (.force t) (.force t')
  | constr {tag : Nat} {vs ts : List Term} {t t' : Term} : (∀ v ∈ vs, IsValue v) → Red t t' →
      Red (.constr tag (vs ++ t :: ts)) (.constr tag (vs ++ t' :: ts))
  | case {s s' : Term} {branches : List Term} : Red s s' → Red (.case s branches) (.case s' branches)

/-- Neither a value nor reducible. -/
def Stuck (t : Term) : Prop := ¬ IsValue t ∧ ∀ t', ¬ Red δ onConstants t t'

end

variable {δ : BuiltinId → List Term → Option Term} {onConstants : Bool} {t t' t₁ t₂ : Term}

/-! ## Values -/

theorem Selects.unique {n i j : Nat} {c : Constant} {p q : List Constant} (h : Selects n c i p)
    (h' : Selects n c j q) : i = j ∧ p = q := by
  cases h <;> cases h' <;> exact ⟨rfl, rfl⟩

/-- Inversion for a constructor, whose arguments are split by the rule. -/
theorem Red.constr_inv {tag : Nat} {args : List Term} (h : Red δ onConstants (.constr tag args) t') :
    ∃ vs t s ts, (∀ v ∈ vs, IsValue v) ∧ Red δ onConstants t s ∧ args = vs ++ t :: ts ∧
      t' = .constr tag (vs ++ s :: ts) := by
  cases h with
  | constr hvs hred => exact ⟨_, _, _, _, hvs, hred, rfl, rfl⟩

/-- A value has no rule: the builtin at its head lacks something. -/
theorem Term.IsValue.not_red (h : IsValue t) : ¬ Red δ onConstants t t' := by
  induction h generalizing t' with
  | const c | lam body | delay body | builtin id => exact nofun
  | constr tag _ ih =>
    intro hred
    obtain ⟨vs, t, s, ts, -, hstep, rfl, -⟩ := hred.constr_inv
    exact ih t (mem_append_right _ mem_cons_self) hstep
  | force _ hspine hlt hlack ih =>
    intro hred
    cases hred with
    | forceDelay => cases hspine
    | builtinForce _ hspine' hall hnone _ =>
      cases hspine.symm.trans hspine'
      omega
    | force hstep => exact ih hstep
  | app _ hspine hlack _ ihf ihv =>
    intro hred
    cases hred with
    | beta _ => cases hspine
    | builtinApp _ hspine' _ hall _ =>
      cases hspine.symm.trans hspine'
      omega
    | appLeft hstep => exact ihf hstep
    | appRight _ hstep => exact ihv hstep

/-- The first argument that is no value is in one place only. -/
theorem eq_of_first_nonvalue {vs ws ts us : List Term} {t u : Term} (hvs : ∀ v ∈ vs, IsValue v)
    (hws : ∀ w ∈ ws, IsValue w) (ht : ¬ IsValue t) (hu : ¬ IsValue u)
    (h : vs ++ t :: ts = ws ++ u :: us) : vs = ws ∧ t = u ∧ ts = us := by
  induction vs generalizing ws with
  | nil =>
    cases ws with
    | nil =>
      cases h
      exact ⟨rfl, rfl, rfl⟩
    | cons w ws =>
      cases h
      exact absurd (hws _ mem_cons_self) ht
  | cons v vs ih =>
    cases ws with
    | nil =>
      cases h
      exact absurd (hvs _ mem_cons_self) hu
    | cons w ws =>
    obtain ⟨rfl, htail⟩ := cons.inj h
    obtain ⟨rfl, rfl, rfl⟩ := ih (fun v hv => hvs v (mem_cons_of_mem _ hv))
      (fun w hw => hws w (mem_cons_of_mem _ hw)) htail
    exact ⟨rfl, rfl, rfl⟩

/-! ## Determinism -/

theorem Red.unique (h₁ : Red δ onConstants t t₁) (h₂ : Red δ onConstants t t₂) : t₁ = t₂ := by
  induction h₁ generalizing t₂ with
  | beta hv =>
    cases h₂ with
    | beta _ => rfl
    | builtinApp _ hspine _ _ _ => cases hspine
    | appLeft hstep => exact absurd hstep (IsValue.lam _).not_red
    | appRight _ hstep => exact absurd hstep hv.not_red
  | forceDelay =>
    cases h₂ with
    | forceDelay => rfl
    | builtinForce _ hspine _ _ _ => cases hspine
    | force hstep => exact absurd hstep (IsValue.delay _).not_red
  | builtinApp hf hspine hv _ hδ =>
    cases h₂ with
    | beta _ => cases hspine
    | builtinApp _ hspine' _ _ hδ' =>
      cases hspine.symm.trans hspine'
      exact some.inj (hδ.symm.trans hδ')
    | appLeft hstep => exact absurd hstep hf.not_red
    | appRight _ hstep => exact absurd hstep hv.not_red
  | builtinForce ht hspine _ _ hδ =>
    cases h₂ with
    | forceDelay => cases hspine
    | builtinForce _ hspine' _ _ hδ' =>
      cases hspine.symm.trans hspine'
      exact some.inj (hδ.symm.trans hδ')
    | force hstep => exact absurd hstep ht.not_red
  | caseConstr hargs hbranch =>
    cases h₂ with
    | caseConstr _ hbranch' => rw [some.inj (hbranch.symm.trans hbranch')]
    | case hstep => exact absurd hstep (IsValue.constr _ hargs).not_red
  | caseConst _ hsel hbranch =>
    cases h₂ with
    | caseConst _ hsel' hbranch' =>
      obtain ⟨rfl, rfl⟩ := hsel.unique hsel'
      rw [some.inj (hbranch.symm.trans hbranch')]
    | case hstep => exact absurd hstep (IsValue.const _).not_red
  | appLeft hstep ih =>
    cases h₂ with
    | beta _ => exact absurd hstep (IsValue.lam _).not_red
    | builtinApp hf _ _ _ _ | appRight hf _ => exact absurd hstep hf.not_red
    | appLeft hstep' => rw [ih hstep']
  | appRight hf hstep ih =>
    cases h₂ with
    | beta hv | builtinApp _ _ hv _ _ => exact absurd hstep hv.not_red
    | appLeft hstep' => exact absurd hstep' hf.not_red
    | appRight _ hstep' => rw [ih hstep']
  | force hstep ih =>
    cases h₂ with
    | forceDelay => exact absurd hstep (IsValue.delay _).not_red
    | builtinForce ht _ _ _ _ => exact absurd hstep ht.not_red
    | force hstep' => rw [ih hstep']
  | constr hvs hstep ih =>
    obtain ⟨ws, u, s, us, hws, hstep', hsplit, rfl⟩ := h₂.constr_inv
    obtain ⟨rfl, rfl, rfl⟩ := eq_of_first_nonvalue hvs hws (fun hv => hv.not_red hstep)
      (fun hv => hv.not_red hstep') hsplit
    rw [ih hstep']
  | case hstep ih =>
    cases h₂ with
    | caseConstr hargs _ => exact absurd hstep (IsValue.constr _ hargs).not_red
    | caseConst _ _ _ => exact absurd hstep (IsValue.const _).not_red
    | case hstep' => rw [ih hstep']

/-! ## Stuck terms -/

namespace Stuck

variable (h : Stuck δ onConstants t)
include h

/-- An application whose function is stuck is stuck, and so on for every position that is evaluated
next. -/
theorem appLeft (a : Term) : Stuck δ onConstants (.app t a) := by
  constructor
  · intro hv
    cases hv with
    | app hf _ _ _ => exact h.1 hf
  · intro t' hred
    cases hred with
    | beta _ => exact h.1 (.lam _)
    | builtinApp hf _ _ _ _ => exact h.1 hf
    | appLeft hstep => exact h.2 _ hstep
    | appRight hf _ => exact h.1 hf

theorem appRight {f : Term} (hf : IsValue f) : Stuck δ onConstants (.app f t) := by
  constructor
  · intro hv
    cases hv with
    | app _ _ _ hv => exact h.1 hv
  · intro t' hred
    cases hred with
    | beta hv | builtinApp _ _ hv _ _ => exact h.1 hv
    | appLeft hstep => exact hf.not_red hstep
    | appRight _ hstep => exact h.2 _ hstep

theorem force : Stuck δ onConstants (.force t) := by
  constructor
  · intro hv
    cases hv with
    | force ht _ _ _ => exact h.1 ht
  · intro t' hred
    cases hred with
    | forceDelay => exact h.1 (.delay _)
    | builtinForce ht _ _ _ _ => exact h.1 ht
    | force hstep => exact h.2 _ hstep

theorem constr {vs : List Term} (hvs : ∀ v ∈ vs, IsValue v)
    (tag : Nat) (ts : List Term) : Stuck δ onConstants (.constr tag (vs ++ t :: ts)) := by
  constructor
  · intro hv
    cases hv with
    | constr _ hargs => exact h.1 (hargs t (mem_append_right _ mem_cons_self))
  · intro t' hred
    obtain ⟨ws, u, s, us, hws, hstep, hsplit, -⟩ := hred.constr_inv
    obtain ⟨-, rfl, -⟩ := eq_of_first_nonvalue hvs hws h.1 (fun hv => hv.not_red hstep) hsplit
    exact h.2 _ hstep

theorem case (branches : List Term) : Stuck δ onConstants (.case t branches) := by
  constructor
  · exact nofun
  · intro t' hred
    cases hred with
    | caseConstr hargs _ => exact h.1 (.constr _ hargs)
    | caseConst _ _ _ => exact h.1 (.const _)
    | case hstep => exact h.2 _ hstep

end Stuck

/-- An application of values for which there is no rule. -/
theorem stuck_app {f v : Term} (hf : IsValue f) (hv : IsValue v) (hlam : ∀ body, f ≠ .lam body)
    (hbuiltin : ∀ id args, f.spine = some (id, (arityOf id).1, args) →
      args.length + 1 = (arityOf id).2 ∧ δ id (args ++ [v]) = none) :
    Stuck δ onConstants (.app f v) := by
  constructor
  · intro hvalue
    cases hvalue with
    | app _ hspine hlt _ => exact absurd (hbuiltin _ _ hspine).1 hlt.ne
  · intro t' hred
    cases hred with
    | beta _ => exact hlam _ rfl
    | builtinApp _ hspine _ _ hδ => cases hδ.symm.trans (hbuiltin _ _ hspine).2
    | appLeft hstep => exact hf.not_red hstep
    | appRight _ hstep => exact hv.not_red hstep

theorem stuck_force (ht : IsValue t) (hdelay : ∀ body, t ≠ .delay body)
    (hbuiltin : ∀ id k, t.spine = some (id, k, []) → (arityOf id).1 ≤ k ∨
      k + 1 = (arityOf id).1 ∧ (arityOf id).2 = 0 ∧ δ id [] = none) :
    Stuck δ onConstants (.force t) := by
  constructor
  · intro hvalue
    cases hvalue with
    | force _ hspine hlt hlack =>
      have := hbuiltin _ _ hspine
      omega
  · intro t' hred
    cases hred with
    | forceDelay => exact hdelay _ rfl
    | builtinForce _ hspine hall _ hδ =>
      rcases hbuiltin _ _ hspine with hle | ⟨-, -, hnone⟩
      · omega
      · cases hδ.symm.trans hnone
    | force hstep => exact ht.not_red hstep

theorem stuck_case {branches : List Term} (ht : IsValue t)
    (hconstr : ∀ tag args, t = .constr tag args → branches[tag]? = none)
    (hconst : ∀ c i payload, t = .const c → onConstants = true →
      Selects branches.length c i payload → branches[i]? = none) :
    Stuck δ onConstants (.case t branches) := by
  constructor
  · exact nofun
  · intro t' hred
    cases hred with
    | caseConstr _ hbranch => cases hbranch.symm.trans (hconstr _ _ rfl)
    | caseConst hon hsel hbranch => cases hbranch.symm.trans (hconst _ _ _ rfl hon hsel)
    | case hstep => exact ht.not_red hstep

end Dugite.Uplc
