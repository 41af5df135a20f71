import Dugite.Plutus.Machine

/-!
# Checking the scope of a term

`check_scope` looks for free variables before a term is evaluated, as the reference does: along
lambdas, applications, forces and delays, and not inside constructors and cases. A term without
these that it accepts is `InScope`; the machine keeps every body in the scope of the environment
beside it (`scoped_step`), so that no lookup fails in any run (`lookup_of_checkScope`).
-/

namespace Dugite.Uplc

open Checks List

namespace Term

/-- `go`, below `lvl` binders. -/
def checkScopeAt (lvl : Nat) : Term → Except UplcError Unit
  | .var i => if i = 0 ∨ lvl < i then .error (.freeVariable i) else .ok ()
  | .lam body => body.checkScopeAt (lvl + 1)
  | .app f arg => do
    f.checkScopeAt lvl
    arg.checkScopeAt lvl
  | .force body => body.checkScopeAt lvl
  | .delay body => body.checkScopeAt lvl
  | .const _ => .ok ()
  | .builtin _ => .ok ()
  | .error => .ok ()
  | .constr _ _ => .ok ()
  | .case _ _ => .ok ()

def checkScope (term : Term) : Except UplcError Unit := term.checkScopeAt 0

/-- No constructor and no case. -/
def Plain : Term → Prop
  | .lam body => body.Plain
  | .app f arg => f.Plain ∧ arg.Plain
  | .force body => body.Plain
  | .delay body => body.Plain
  | .constr _ _ => False
  | .case _ _ => False
  | _ => True

/-- A plain term all of whose variables are bound, the outermost by `lvl` binders around it. -/
def InScope (lvl : Nat) : Term → Prop
  | .var i => 1 ≤ i ∧ i ≤ lvl
  | .lam body => body.InScope (lvl + 1)
  | .app f arg => f.InScope lvl ∧ arg.InScope lvl
  | .force body => body.InScope lvl
  | .delay body => body.InScope lvl
  | .constr _ _ => False
  | .case _ _ => False
  | _ => True

theorem inScope_of_checkScopeAt : ∀ {t : Term} {lvl : Nat}, t.Plain →
    t.checkScopeAt lvl = .ok () → t.InScope lvl
  | .var i, lvl, _, h => by
    rw [checkScopeAt] at h
    split at h
    · cases h
    · next hbound =>
      rw [not_or, Nat.not_lt] at hbound
      exact ⟨Nat.one_le_iff_ne_zero.2 hbound.1, hbound.2⟩
  | .lam body, lvl, hplain, h => by
    exact inScope_of_checkScopeAt (t := body) hplain h
  | .app f arg, lvl, hplain, h => by
    obtain ⟨hf, harg⟩ := bind_unit_eq_ok.1 h
    exact ⟨inScope_of_checkScopeAt hplain.1 hf, inScope_of_checkScopeAt hplain.2 harg⟩
  | .force body, lvl, hplain, h => by
    exact inScope_of_checkScopeAt (t := body) hplain h
  | .delay body, lvl, hplain, h => by
    exact inScope_of_checkScopeAt (t := body) hplain h
  | .const _, _, _, _ => trivial
  | .builtin _, _, _, _ => trivial
  | .error, _, _, _ => trivial

end Term

/-! ## What the machine keeps -/

/-- The bodies of closures are in the scope of their environments. -/
inductive Value.Scoped : Value → Prop
  | const (c : Constant) : Scoped (.const c)
  | lambda {body : Term} {env : List Value} : body.InScope (env.length + 1) →
      (∀ v ∈ env, Scoped v) → Scoped (.lambda body env)
  | delay {body : Term} {env : List Value} : body.InScope env.length →
      (∀ v ∈ env, Scoped v) → Scoped (.delay body env)
  | builtin {id : BuiltinId} {forces : Nat} {args : List Value} : (∀ v ∈ args, Scoped v) →
      Scoped (.builtin id forces args)

/-- A plain term pushes no other frames. -/
def Frame.Scoped : Frame → Prop
  | .awaitArg function _ => function.Scoped
  | .awaitFunTerm argument env => argument.InScope env.length ∧ ∀ v ∈ env, v.Scoped
  | .force => True
  | _ => False

def State.Scoped : State → Prop
  | .compute t env kont => t.InScope env.length ∧ (∀ v ∈ env, v.Scoped) ∧ ∀ f ∈ kont, f.Scoped
  | .ret v kont => v.Scoped ∧ ∀ f ∈ kont, f.Scoped
  | .done _ => True

/-- A builtin returns a constant or one of its arguments. -/
def ReturnsArgument (denote : Denotation) (variant : SemanticsVariant) : Prop :=
  ∀ id args v, denote variant id args = .ok v → (∃ c, v = .const c) ∨ v ∈ args

/-- One step, whatever the tracker is before it and after it. -/
def Moves {τ : Type} (denote : Denotation) (charge : Charge τ) (variant : SemanticsVariant)
    (s s' : State) : Prop :=
  ∃ t t', step denote charge variant s t = .ok (s', t')

section
variable {τ : Type} {denote : Denotation} {charge : Charge τ} {variant : SemanticsVariant}
  {s' : State}

section
variable (hdenote : ReturnsArgument denote variant) {t t' : τ} {kont : Kont} {v : Value}
include hdenote

/-- A builtin that runs. -/
theorem ReturnsArgument.scoped {id : BuiltinId} {args : List Value} (hargs : ∀ a ∈ args, a.Scoped)
    (h : (do
      let t ← charge variant id args t
      let value ← denote variant id args
      return (value, t) : Except UplcError (Value × τ)) = .ok (v, t')) : v.Scoped := by
  obtain ⟨t₁, -, h⟩ := bind_eq_ok.1 h
  obtain ⟨value, hvalue, h⟩ := bind_eq_ok.1 h
  cases h
  rcases hdenote id args v hvalue with ⟨c, rfl⟩ | hmem
  · exact .const c
  · exact hargs v hmem

theorem scoped_apply {f a : Value} (hf : f.Scoped) (ha : a.Scoped) (hkont : ∀ f ∈ kont, f.Scoped)
    (h : apply denote charge variant f a kont t = .ok (s', t')) : s'.Scoped := by
  cases hf with
  | const c | delay _ _ => cases h
  | lambda hbody henv =>
    cases h
    exact ⟨hbody, forall_mem_cons.2 ⟨ha, henv⟩, hkont⟩
  | @builtin id forces args hargs =>
  have hall := forall_mem_append.2 ⟨hargs, forall_mem_singleton.2 ha⟩
  obtain ⟨result, hresult, h⟩ := bind_eq_ok.1 h
  cases h
  refine ⟨?_, hkont⟩
  rw [applyBuiltin] at hresult
  dsimp only at hresult
  split at hresult
  · cases hresult
  split at hresult
  · cases hresult
    exact .builtin hall
  split at hresult
  · cases hresult
  · exact hdenote.scoped hall hresult

theorem scoped_forceValue (hv : v.Scoped) (hkont : ∀ f ∈ kont, f.Scoped)
    (h : forceValue denote charge variant v kont t = .ok (s', t')) : s'.Scoped := by
  cases hv with
  | const c | lambda _ _ => cases h
  | delay hbody henv =>
    cases h
    exact ⟨hbody, henv, hkont⟩
  | @builtin id forces args hargs =>
  obtain ⟨result, hresult, h⟩ := bind_eq_ok.1 h
  cases h
  refine ⟨?_, hkont⟩
  rw [forceBuiltin] at hresult
  dsimp only at hresult
  split at hresult
  · split at hresult
    · exact hdenote.scoped (fun a ha => absurd ha not_mem_nil) hresult
    · cases hresult
      exact .builtin hargs
  · cases hresult

end

theorem lookup_of_inScope {env : Env} {i : Nat} (h : (Term.var i).InScope env.length) :
    ∃ v ∈ env, env.lookup i = .ok v := by
  obtain ⟨hpos, hle⟩ := h
  have hlt : i - 1 < env.length := by omega
  refine ⟨env[i - 1], getElem_mem hlt, ?_⟩
  rw [Env.lookup, if_neg (by omega), getElem?_eq_getElem hlt]

theorem scoped_step (hdenote : ReturnsArgument denote variant) {s : State} (hs : s.Scoped)
    (h : Moves denote charge variant s s') : s'.Scoped := by
  obtain ⟨t, t', h⟩ := h
  cases s with
  | done v => cases h
  | compute term env kont =>
    obtain ⟨hterm, henv, hkont⟩ := hs
    have hpush : ∀ {f}, f.Scoped → ∀ f' ∈ f :: kont, f'.Scoped :=
      fun hf => forall_mem_cons.2 ⟨hf, hkont⟩
    cases term with
    | var i =>
      obtain ⟨v, hv, hlookup⟩ := lookup_of_inScope hterm
      rw [step, compute, hlookup] at h
      cases h
      exact ⟨henv v hv, hkont⟩
    | lam body => cases h; exact ⟨.lambda hterm henv, hkont⟩
    | app f arg => cases h; exact ⟨hterm.1, henv, hpush ⟨hterm.2, henv⟩⟩
    | const c => cases h; exact ⟨.const c, hkont⟩
    | delay body => cases h; exact ⟨.delay hterm henv, hkont⟩
    | force body => cases h; exact ⟨hterm, henv, hpush trivial⟩
    | error => cases h
    | builtin id =>
      rw [step, compute] at h
      split at h
      · cases h
      · cases h
        exact ⟨.builtin nofun, hkont⟩
    | constr tag args | case scrutinee branches => exact hterm.elim
  | ret v kont =>
    obtain ⟨hv, hkont⟩ := hs
    cases kont with
    | nil => cases h; trivial
    | cons frame kont =>
    rw [forall_mem_cons] at hkont
    obtain ⟨hframe, hkont⟩ := hkont
    cases frame with
    | awaitFunTerm argument env =>
      cases h
      exact ⟨hframe.1, hframe.2, forall_mem_cons.2 ⟨hv, hkont⟩⟩
    | awaitArg function env => exact scoped_apply hdenote hframe hv hkont h
    | force => exact scoped_forceValue hdenote hv hkont h
    | applyValue argument | constr tag pending evaluated env | cases branches env =>
      exact hframe.elim

/-- No run from a plain term that the check accepts, with any budget, meets a variable that the
environment does not have. -/
theorem lookup_of_checkScope (hdenote : ReturnsArgument denote variant) {term : Term}
    (hplain : term.Plain) (hscope : term.checkScope = .ok ()) {i : Nat} {env : Env} {kont : Kont}
    (hreach : Relation.ReflTransGen (Moves denote charge variant) (initial term)
      (.compute (.var i) env kont)) : ∃ v, env.lookup i = .ok v := by
  have hscoped : ∀ {s}, Relation.ReflTransGen (Moves denote charge variant) (initial term) s →
      s.Scoped := by
    intro s hs
    induction hs with
    | refl => exact ⟨Term.inScope_of_checkScopeAt hplain hscope, nofun, nofun⟩
    | tail _ hstep ih => exact scoped_step hdenote ih hstep
  obtain ⟨v, -, hlookup⟩ := lookup_of_inScope (hscoped hreach).1
  exact ⟨v, hlookup⟩

end

/-- The identity applied to a constant comes to its variable. -/
theorem identity_in_scope : ∃ v, Env.lookup [.const (.integer 7)] 1 = .ok v := by
  refine @lookup_of_checkScope Unit (fun _ _ _ => .error .scriptError) freeCharge .latest nofun
    (.app (.lam (.var 1)) (.const (.integer 7))) ⟨trivial, trivial⟩ rfl 1 _ [] ?_
  exact .tail (.tail (.tail (.tail (.tail .refl ⟨(), (), rfl⟩) ⟨(), (), rfl⟩) ⟨(), (), rfl⟩)
    ⟨(), (), rfl⟩) ⟨(), (), rfl⟩

end Dugite.Uplc
