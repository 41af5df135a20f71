import Dugite.Plutus.Machine
import Dugite.Plutus.Reduction

/-!
# The machine implements the language

Every state of the machine stands for a closed term: values are read back by putting the values of
their environment into their body (`Value.discharge`), and the frames are put around them
(`Frame.plug`). Most steps only move the place of evaluation; the others are the reductions
(`implements`). So `evaluate` returns a value exactly if the term reduces to what the value stands
for, and fails exactly if the term gets stuck (`evaluate_adequate`).

A builtin is any partial function of the terms that its arguments stand for (`Computes`).
-/

namespace Dugite.Uplc

open Term List State Nat

/-! ## Reading back -/

/-- A builtin with forces and arguments. -/
def partialApp (id : BuiltinId) (forces : Nat) (args : List Term) : Term :=
  args.foldl .app (Nat.repeat .force forces (.builtin id))

namespace Value

mutual

/-- The term a value stands for. -/
def discharge : Value → Term
  | .const c => .const c
  | .lambda body env => .lam (body.inst (dischargeAll env) 1)
  | .delay body env => .delay (body.inst (dischargeAll env) 0)
  | .builtin id forces args => partialApp id forces (dischargeAll args)
  | .constr tag args => .constr tag (dischargeAll args)

def dischargeAll : List Value → List Term
  | [] => []
  | v :: vs => v.discharge :: dischargeAll vs

end

@[simp] theorem dischargeAll_eq_map (vs : List Value) : dischargeAll vs = vs.map discharge := by
  induction vs with
  | nil => rfl
  | cons v vs ih => rw [dischargeAll, ih, map_cons]

/-- The bodies of closures are closed under their environments, and a builtin has got its forces
before its arguments and lacks something. -/
inductive WellFormed : Value → Prop
  | const (c : Constant) : WellFormed (.const c)
  | lambda {body : Term} {env : List Value} : Closed (env.length + 1) body →
      (∀ v ∈ env, WellFormed v) → WellFormed (.lambda body env)
  | delay {body : Term} {env : List Value} : Closed env.length body →
      (∀ v ∈ env, WellFormed v) → WellFormed (.delay body env)
  | builtin {id : BuiltinId} {forces : Nat} {args : List Value} : (∀ v ∈ args, WellFormed v) →
      forces ≤ (arityOf id).1 → (args ≠ [] → forces = (arityOf id).1) →
      forces < (arityOf id).1 ∨ args.length < (arityOf id).2 → WellFormed (.builtin id forces args)
  | constr (tag : Nat) {args : List Value} : (∀ v ∈ args, WellFormed v) →
      WellFormed (.constr tag args)

end Value

variable (id : BuiltinId) (forces : Nat) {frame : Frame} {v : Value} {args : List Term}

theorem partialApp_snoc (args : List Term) (a : Term) :
    partialApp id forces (args ++ [a]) = .app (partialApp id forces args) a := by
  rw [partialApp, foldl_append]
  rfl

theorem spine_partialApp (args : List Term) :
    (partialApp id forces args).spine = some (id, forces, args) := by
  induction args using reverseRecOn with
  | nil =>
    induction forces with
    | zero => rfl
    | succ forces ih => 
      change (force (partialApp id forces [])).spine = _
      rw [spine, ih]
  | append_singleton args a ih => rw [partialApp_snoc, spine, ih]

theorem closed_partialApp (h : ∀ a ∈ args, Closed 0 a) : Closed 0 (partialApp id forces args) := by
  induction args using reverseRecOn with
  | nil =>
    induction forces with
    | zero => exact .builtin
    | succ forces ih => exact .force ih
  | append_singleton args a ih =>
    rw [partialApp_snoc]
    refine .app (ih fun b hb => h b (mem_append_left _ hb)) ?_
    exact h a (mem_append_right _ (mem_singleton_self a))

variable {id : BuiltinId} {forces : Nat} {c : Constant}

/-- A builtin that lacks something is a value. -/
theorem isValue_partialApp (hargs : ∀ a ∈ args, IsValue a) (hle : forces ≤ (arityOf id).1)
    (hall : args ≠ [] → forces = (arityOf id).1)
    (hlack : forces < (arityOf id).1 ∨ args.length < (arityOf id).2) :
    IsValue (partialApp id forces args) := by
  induction args using reverseRecOn with
  | nil =>
    induction forces with
    | zero => exact .builtin id
    | succ forces ih =>
      exact .force (ih (by omega) (by simp) (by omega)) (spine_partialApp id forces []) (by omega) hlack
  | append_singleton args a ih =>
    obtain rfl := hall (by simp)
    rw [length_append, length_singleton] at hlack
    have hhead := ih (fun b hb => hargs b (mem_append_left _ hb)) (fun _ => rfl) (by omega)
    rw [partialApp_snoc]
    exact .app hhead (spine_partialApp id _ args) (by omega)
      (hargs a (mem_append_right _ (mem_singleton_self a)))

namespace Value.WellFormed

variable {v : Value}

theorem isValue (h : v.WellFormed) : IsValue v.discharge := by
  induction h with
  | const c => exact .const c
  | lambda _ _ _ => exact .lam _
  | delay _ _ _ => exact .delay _
  | builtin _ hle hall hlack ih =>
    rw [discharge, dischargeAll_eq_map]
    refine isValue_partialApp (forall_mem_map.2 ih) hle (fun hne => hall ?_) ?_
    · rintro rfl
      exact hne rfl
    · rwa [length_map]
  | constr tag _ ih =>
    rw [discharge, dischargeAll_eq_map]
    exact .constr tag (forall_mem_map.2 ih)

theorem closed (h : v.WellFormed) : Closed 0 v.discharge := by
  induction h with
  | const c => exact .const
  | lambda hbody _ ih =>
    rw [discharge, dischargeAll_eq_map]
    exact .lam (hbody.inst (forall_mem_map.2 ih) (by rw [length_map, add_comm]))
  | delay hbody _ ih =>
    rw [discharge, dischargeAll_eq_map]
    exact .delay (hbody.inst (forall_mem_map.2 ih) (by rw [length_map, zero_add]))
  | builtin _ _ _ _ ih =>
    rw [discharge, dischargeAll_eq_map]
    exact closed_partialApp _ _ (forall_mem_map.2 ih)
  | constr tag _ ih =>
    rw [discharge, dischargeAll_eq_map]
    exact .constr (forall_mem_map.2 ih)

end Value.WellFormed

/-! ## States -/

/-- A term with the values of an environment put in. -/
def Term.under (t : Term) (env : Env) : Term := t.inst (env.map Value.discharge) 0

theorem Term.under_constr (tag : Nat) (args : List Term) (env : Env) :
    (constr tag args).under env = .constr tag (args.map (·.under env)) := by
  rw [under, inst, instAll_eq_map]
  rfl

theorem Term.under_case (s : Term) (branches : List Term) (env : Env) :
    (case s branches).under env = .case (s.under env) (branches.map (·.under env)) := by
  rw [under, inst, instAll_eq_map]
  rfl

/-- All values of an environment are well-formed. -/
def Env.WellFormed (env : Env) : Prop := ∀ v ∈ env, v.WellFormed

theorem Env.WellFormed.closed {env : Env} (h : env.WellFormed) :
    ∀ s ∈ env.map Value.discharge, Closed 0 s :=
  forall_mem_map.2 fun v hv => (h v hv).closed

/-- Put a frame around the term that is evaluated next. -/
def Frame.plug : Frame → Term → Term
  | .awaitArg function _, t => .app function.discharge t
  | .awaitFunTerm argument env, t => .app t (argument.under env)
  | .force, t => .force t
  | .applyValue argument, t => .app t argument.discharge
  | .constr tag pending evaluated env, t =>
    .constr tag (evaluated.map Value.discharge ++ t :: pending.map (·.under env))
  | .cases branches env, t => .case t (branches.map (·.under env))

/-- What a frame holds is well-formed, and its terms are closed by its environment. -/
def Frame.WellFormed : Frame → Prop
  | .awaitArg function _ => function.WellFormed
  | .awaitFunTerm argument env => Closed env.length argument ∧ env.WellFormed
  | .force => True
  | .applyValue argument => argument.WellFormed
  | .constr _ pending evaluated env =>
    (∀ t ∈ pending, Closed env.length t) ∧ (∀ v ∈ evaluated, v.WellFormed) ∧ env.WellFormed
  | .cases branches env => (∀ b ∈ branches, Closed env.length b) ∧ env.WellFormed

/-- The term around the hole, innermost frame first. -/
def Kont.plug (kont : Kont) (t : Term) : Term := kont.foldl (fun t frame => frame.plug t) t

def Kont.WellFormed (kont : Kont) : Prop := ∀ frame ∈ kont, frame.WellFormed

/-- The term a state stands for. -/
def State.term : State → Term
  | .compute t env kont => kont.plug (t.under env)
  | .ret v kont => kont.plug v.discharge
  | .done v => v.discharge

/-- The loop ends before it steps from `done`. -/
def State.WellFormed : State → Prop
  | .compute t env kont => Closed env.length t ∧ env.WellFormed ∧ kont.WellFormed
  | .ret v kont => v.WellFormed ∧ kont.WellFormed
  | .done _ => False

/-- What is still to be evaluated in a frame. -/
noncomputable def Frame.weight : Frame → Nat
  | .awaitArg _ _ => 1
  | .awaitFunTerm argument _ => 3 * sizeOf argument + 2
  | .force => 1
  | .applyValue _ => 1
  | .constr _ pending _ _ => 3 * sizeOf pending + 1
  | .cases _ _ => 1

/-- What is left to do in a continuation. -/
noncomputable def Kont.weight (kont : Kont) : Nat := (kont.map Frame.weight).sum

/-- Falls with every step that is no reduction. -/
noncomputable def State.measure : State → Nat
  | .compute t _ kont => 3 * sizeOf t + kont.weight
  | .ret _ kont => kont.weight + 1
  | .done _ => 0

section Frames
variable {δ : BuiltinId → List Term → Option Term} {onConstants : Bool} {t t' : Term} {kont : Kont}

theorem Frame.WellFormed.red (h : frame.WellFormed)
    (hred : Red δ onConstants t t') : Red δ onConstants (frame.plug t) (frame.plug t') := by
  cases frame with
  | awaitArg function env => exact .appRight (Value.WellFormed.isValue h) hred
  | awaitFunTerm argument env | applyValue argument => exact .appLeft hred
  | force => exact .force hred
  | constr tag pending evaluated env =>
    exact .constr (forall_mem_map.2 fun v hv => (h.2.1 v hv).isValue) hred
  | cases branches env => exact .case hred

theorem Frame.WellFormed.stuck (h : frame.WellFormed)
    (hstuck : Stuck δ onConstants t) : Stuck δ onConstants (frame.plug t) := by
  cases frame with
  | awaitArg function env => exact hstuck.appRight (Value.WellFormed.isValue h)
  | awaitFunTerm argument env | applyValue argument => exact hstuck.appLeft _
  | force => exact hstuck.force
  | constr tag pending evaluated env =>
    exact hstuck.constr (forall_mem_map.2 fun v hv => (h.2.1 v hv).isValue) _ _
  | cases branches env => exact hstuck.case _

theorem Kont.WellFormed.red (h : kont.WellFormed) (hred : Red δ onConstants t t') :
    Red δ onConstants (kont.plug t) (kont.plug t') := by
  induction kont generalizing t t' with
  | nil => exact hred
  | cons frame kont ih =>
    exact ih (fun f hf => h f (mem_cons_of_mem _ hf)) ((h frame mem_cons_self).red hred)

theorem Kont.WellFormed.stuck (h : kont.WellFormed)
    (hstuck : Stuck δ onConstants t) : Stuck δ onConstants (kont.plug t) := by
  induction kont generalizing t with
  | nil => exact hstuck
  | cons frame kont ih =>
    exact ih (fun f hf => h f (mem_cons_of_mem _ hf)) ((h frame mem_cons_self).stuck hstuck)

end Frames

/-! ## One step -/

/-- The builtins compute `δ` of what their arguments stand for. -/
structure Computes (denote : Denotation) (variant : SemanticsVariant)
    (δ : BuiltinId → List Term → Option Term) : Prop where
  ok : ∀ {id : BuiltinId} {args : List Value} {v : Value}, (∀ w ∈ args, w.WellFormed) →
    args.length = (arityOf id).2 → denote variant id args = .ok v →
      v.WellFormed ∧ δ id (args.map Value.discharge) = some v.discharge
  error : ∀ {id : BuiltinId} {args : List Value} {e : UplcError}, (∀ w ∈ args, w.WellFormed) →
    args.length = (arityOf id).2 → denote variant id args = .error e →
      δ id (args.map Value.discharge) = none

/-- What becomes of a state that stands for `t` and has the measure `m`. -/
inductive Sound (δ : BuiltinId → List Term → Option Term) (onConstants : Bool) (t : Term) (m : Nat) :
    Except UplcError (State × Unit) → Prop
  | red {s : State} : s.WellFormed → Red δ onConstants t s.term → Sound δ onConstants t m (.ok (s, ()))
  | move {s : State} : s.WellFormed → s.term = t → s.measure < m →
      Sound δ onConstants t m (.ok (s, ()))
  | fail {e : UplcError} : Stuck δ onConstants t → Sound δ onConstants t m (.error e)

section OneStep
variable {δ : BuiltinId → List Term → Option Term} {onConstants : Bool} {kont : Kont} {env : Env}
  {t : Term}

theorem Kont.weight_cons (frame : Frame) (kont : Kont) :
    Kont.weight (frame :: kont) = frame.weight + Kont.weight kont := sum_cons

theorem Kont.WellFormed.cons (hframe : frame.WellFormed) (h : kont.WellFormed) :
    Kont.WellFormed (frame :: kont) :=
  forall_mem_cons.2 ⟨hframe, h⟩

/-- A variable of a closed term has a value. -/
theorem Env.lookup_of_closed {i : Nat} (h : Closed env.length (.var i)) :
    ∃ v ∈ env, env.lookup i = .ok v ∧ (var i).under env = v.discharge := by
  cases h with
  | var hpos hle =>
    have hlt : i - 1 < env.length := by omega
    refine ⟨env[i - 1], getElem_mem hlt, ?_, ?_⟩
    · rw [Env.lookup, if_neg (by omega), getElem?_eq_getElem hlt]
    · rw [under, inst_var_of_gt _ (by omega), Nat.sub_zero,
        getD_eq_getElem _ _ (by rwa [length_map]), getElem_map]

theorem compute_sound (ht : Closed env.length t) (henv : env.WellFormed) (hkont : kont.WellFormed) :
    Sound δ onConstants (State.compute t env kont).term (State.compute t env kont).measure
      ((compute t env kont).map (·, ())) := by
  cases ht with
  | @var _ i hpos hle =>
    obtain ⟨v, hv, hlookup, hterm⟩ := Env.lookup_of_closed (.var hpos hle)
    rw [compute, hlookup]
    refine .move ⟨henv v hv, hkont⟩ ?_ ?_
    · rw [term, term, hterm]
    · simp only [State.measure, var.sizeOf_spec]
      omega
  | lam hbody =>
    refine .move ⟨.lambda hbody henv, hkont⟩ ?_ ?_
    · rw [term, term, Value.discharge, Value.dischargeAll_eq_map]
      rfl
    · simp only [State.measure, lam.sizeOf_spec]
      omega
  | app hf ha =>
    refine .move ⟨hf, henv, hkont.cons ⟨ha, henv⟩⟩ rfl ?_
    simp only [State.measure, Kont.weight_cons, Frame.weight, app.sizeOf_spec]
    omega
  | const =>
    refine .move ⟨.const _, hkont⟩ rfl ?_
    simp only [State.measure, const.sizeOf_spec]
    omega
  | delay hbody =>
    refine .move ⟨.delay hbody henv, hkont⟩ ?_ ?_
    · rw [term, term, Value.discharge, Value.dischargeAll_eq_map]
      rfl
    · simp only [State.measure, delay.sizeOf_spec]
      omega
  | force hbody =>
    refine .move ⟨hbody, henv, hkont.cons trivial⟩ rfl ?_
    simp only [State.measure, Kont.weight_cons, Frame.weight, force.sizeOf_spec]
    omega
  | error => exact .fail (hkont.stuck ⟨nofun, nofun⟩)
  | @builtin _ id =>
    have hpos : 0 < (arityOf id).1 + (arityOf id).2 := by cases id <;> decide
    have harity : arityOf id ≠ (0, 0) := fun h => by rw [h] at hpos; omega
    rw [compute, if_neg harity]
    refine .move ⟨.builtin nofun (Nat.zero_le _) (fun h => absurd rfl h) ?_, hkont⟩ rfl ?_
    · change 0 < _ ∨ 0 < _
      omega
    · simp only [State.measure, builtin.sizeOf_spec]
      omega
  | @constr _ tag args hargs =>
    cases args with
    | nil =>
      refine .move ⟨.constr tag nofun, hkont⟩ rfl ?_
      simp only [State.measure, constr.sizeOf_spec]
      omega
    | cons first pending =>
    obtain ⟨hfirst, hpending⟩ := forall_mem_cons.1 hargs
    refine .move ⟨hfirst, henv, hkont.cons ⟨hpending, nofun, henv⟩⟩ ?_ ?_
    · rw [term, term, under_constr]
      rfl
    · simp only [State.measure, Kont.weight_cons, Frame.weight, constr.sizeOf_spec,
        cons.sizeOf_spec]
      omega
  | case hs hbranches =>
    refine .move ⟨hs, henv, hkont.cons ⟨hbranches, henv⟩⟩ ?_ ?_
    · rw [term, term, under_case]
      rfl
    · simp only [State.measure, Kont.weight_cons, Frame.weight, case.sizeOf_spec]
      omega

theorem discharge_builtin (id : BuiltinId) (forces : Nat) (args : List Value) :
    (Value.builtin id forces args).discharge = partialApp id forces (args.map Value.discharge) := by
  rw [Value.discharge, Value.dischargeAll_eq_map]

theorem spine_discharge_builtin (id : BuiltinId) (forces : Nat) (args : List Value) :
    (Value.builtin id forces args).discharge.spine =
      some (id, forces, args.map Value.discharge) := by
  rw [discharge_builtin, spine_partialApp]

variable {denote : Denotation} {variant : SemanticsVariant} {n i : Nat}

section
variable (hδ : Computes denote variant δ) {args : List Value}
include hδ

theorem applyBuiltin_sound {arg : Value} (hf : (Value.builtin id forces args).WellFormed)
    (harg : arg.WellFormed) (hkont : kont.WellFormed) :
    Sound δ onConstants
      (kont.plug (.app (Value.builtin id forces args).discharge arg.discharge)) (kont.weight + 2)
      ((applyBuiltin denote freeCharge variant id forces args arg ()).map
        fun r => (.ret r.1 kont, r.2)) := by
  have hfv := hf.isValue
  have hspine := spine_discharge_builtin id forces args
  have hne : ∀ body, (Value.builtin id forces args).discharge ≠ .lam body := by
    intro body hlam
    rw [hlam] at hspine
    cases hspine
  cases hf with
  | builtin hargs hle hall hlack =>
    have hargs' : ∀ w ∈ args ++ [arg], w.WellFormed := by
      intro w hw
      rcases mem_append.1 hw with hw | hw
      · exact hargs w hw
      · rwa [mem_singleton.1 hw]
    have hlt : (arityOf id).1 < 256 ∧ (arityOf id).2 < 256 := by cases id <;> decide
    rw [applyBuiltin]
    dsimp only
    split
    · next hforces =>
      -- a force is missing
      refine .fail (hkont.stuck (stuck_app hfv harg.isValue hne fun id' args' hspine' => ?_))
      cases hspine.symm.trans hspine'
      omega
    next hforces =>
    obtain rfl : forces = (arityOf id).1 := by omega
    have hcount : (args ++ [arg]).length % 256 = args.length + 1 := by
      rw [length_append, length_singleton, mod_eq_of_lt (by omega)]
    rw [hcount]
    split
    · next hmore =>
      refine .move ⟨.builtin hargs' le_rfl (fun _ => rfl) (.inr ?_), hkont⟩ ?_ ?_
      · rwa [length_append, length_singleton]
      · rw [term, discharge_builtin, map_append, map_singleton, partialApp_snoc,
        ← discharge_builtin]
      · exact lt_succ_self _
    · next hmore =>
      have hfull : args.length + 1 = (arityOf id).2 := by omega
      have hlength : (args ++ [arg]).length = (arityOf id).2 := by
        rw [length_append, length_singleton, hfull]
      have hmap : (args ++ [arg]).map Value.discharge =
          args.map Value.discharge ++ [arg.discharge] := by
        rw [map_append, map_singleton]
      rw [if_neg (by omega)]
      cases hdenote : denote variant id (args ++ [arg]) with
      | error e =>
        have hnone := hδ.error hargs' hlength hdenote
        rw [hmap] at hnone
        refine .fail (hkont.stuck (stuck_app hfv harg.isValue hne fun id' args' hspine' => ?_))
        cases hspine.symm.trans hspine'
        exact ⟨by rwa [length_map], hnone⟩
      | ok v =>
        obtain ⟨hv, hsome⟩ := hδ.ok hargs' hlength hdenote
        rw [hmap] at hsome
        refine .red ⟨hv, hkont⟩ (hkont.red (.builtinApp hfv hspine harg.isValue ?_ hsome))
        rwa [length_map]

theorem forceBuiltin_sound (ht : (Value.builtin id forces args).WellFormed)
    (hkont : kont.WellFormed) :
    Sound δ onConstants (kont.plug (.force (Value.builtin id forces args).discharge))
      (kont.weight + 2)
      ((forceBuiltin denote freeCharge variant id forces args ()).map
        fun r => (.ret r.1 kont, r.2)) := by
  have htv := ht.isValue
  have hspine := spine_discharge_builtin id forces args
  have hne : ∀ body, (Value.builtin id forces args).discharge ≠ .delay body := by
    intro body hdelay
    rw [hdelay] at hspine
    cases hspine
  cases ht with
  | builtin hargs hle hall hlack =>
    rw [forceBuiltin]
    dsimp only
    split
    · next hforces =>
      -- while forces are missing there are no arguments
      obtain rfl : args = [] := by
        by_contra hargs
        exact hforces.ne (hall hargs)
      have hnil : ∀ w ∈ ([] : List Value), w.WellFormed := nofun
      split
      · next hfull =>
        cases hdenote : denote variant id [] with
        | error e =>
          have hnone := hδ.error hnil hfull.2.symm hdenote
          refine .fail (hkont.stuck (stuck_force htv hne fun id' k hspine' => .inr ?_))
          cases hspine.symm.trans hspine'
          exact ⟨hfull.1, hfull.2, hnone⟩
        | ok v =>
          obtain ⟨hv, hsome⟩ := hδ.ok hnil hfull.2.symm hdenote
          exact .red ⟨hv, hkont⟩ (hkont.red (.builtinForce htv hspine hfull.1 hfull.2 hsome))
      · next hmore =>
        refine .move ⟨.builtin nofun hforces (fun h => absurd rfl h) ?_, hkont⟩ rfl ?_
        · change _ ∨ 0 < _
          omega
        · exact Nat.lt_succ_self _
    · next hforces =>
      refine .fail (hkont.stuck (stuck_force htv hne fun id' k hspine' => .inl ?_))
      obtain ⟨rfl, hk⟩ := Prod.mk.inj (Option.some.inj (hspine.symm.trans hspine'))
      have hforces' := (Prod.mk.inj hk).1
      omega

theorem apply_sound {f a : Value} (hf : f.WellFormed)
    (ha : a.WellFormed) (hkont : kont.WellFormed) :
    Sound δ onConstants (kont.plug (.app f.discharge a.discharge)) (kont.weight + 2)
      (apply denote freeCharge variant f a kont ()) := by
  have hfv := hf.isValue
  cases hf with
  | @lambda body env hbody henv =>
    have hclosed := Env.WellFormed.closed henv
    refine .red ⟨hbody, forall_mem_cons.2 ⟨ha, henv⟩, hkont⟩ (hkont.red ?_)
    have hinst := inst_cons hclosed a.discharge hbody
      (by rw [length_map, zero_add] : _ = 0 + _ + 1)
    rw [under, map_cons, ← hinst, Value.discharge, Value.dischargeAll_eq_map]
    exact .beta ha.isValue
  | builtin hargs hle hall hlack => exact applyBuiltin_sound hδ (.builtin hargs hle hall hlack) ha hkont
  | const c | delay _ _ | constr tag _ =>
    exact .fail (hkont.stuck (stuck_app hfv ha.isValue nofun nofun))

theorem forceValue_sound (hv : v.WellFormed) (hkont : kont.WellFormed) :
    Sound δ onConstants (kont.plug (.force v.discharge)) (kont.weight + 2)
      (forceValue denote freeCharge variant v kont ()) := by
  have hvv := hv.isValue
  cases hv with
  | delay hbody henv =>
    refine .red ⟨hbody, henv, hkont⟩ (hkont.red ?_)
    rw [Value.discharge, Value.dischargeAll_eq_map]
    exact .forceDelay
  | builtin hargs hle hall hlack => exact forceBuiltin_sound hδ (.builtin hargs hle hall hlack) hkont
  | const c | lambda _ _ | constr tag _ => exact .fail (hkont.stuck (stuck_force hvv nofun nofun))

end

/-- The selection of a branch by a constant. -/
theorem Selects.project {payload : List Constant}
    (h : Selects n c i payload) : ∃ max, projectConstant n c = .ok (i, payload.map .const, max) ∧
      max.any (· < n) = false := by
  cases h with
  | boolFalse hle | boolTrue hle | nil hle | cons hle =>
    exact ⟨some 2, rfl, decide_eq_false (not_lt.2 hle)⟩
  | unit hle | pair hle => exact ⟨some 1, rfl, decide_eq_false (not_lt.2 hle)⟩
  | integer hlt => exact ⟨none, if_pos ⟨Int.natCast_nonneg i, hlt⟩, rfl⟩

theorem selects_of_project {vs : List Value} {max : Option Nat}
    (h : projectConstant n c = .ok (i, vs, max)) (hmax : max.any (· < n) = false) :
    ∃ payload, vs = payload.map .const ∧ Selects n c i payload := by
  have hle : ∀ m, max = some m → n ≤ m := by
    rintro m rfl
    exact not_lt.1 (of_decide_eq_false hmax)
  unfold projectConstant at h
  split at h
  · cases h
    exact ⟨[], rfl, .boolFalse (hle 2 rfl)⟩
  · cases h
    exact ⟨[], rfl, .boolTrue (hle 2 rfl)⟩
  · cases h
    exact ⟨[], rfl, .unit (hle 1 rfl)⟩
  · cases h
    exact ⟨[], rfl, .nil (hle 2 rfl)⟩
  · cases h
    exact ⟨[_, _], rfl, .cons (hle 2 rfl)⟩
  · cases h
    exact ⟨[_, _], rfl, .pair (hle 1 rfl)⟩
  · next k =>
    split at h
    · next hk =>
      cases h
      have hsel : Selects n (.integer k.toNat) k.toNat [] := .integer hk.2
      rw [Int.toNat_of_nonneg hk.1] at hsel
      exact ⟨[], rfl, hsel⟩
    · cases h
  · cases h

/-- The frames that apply a branch to the values of a constructor. -/
theorem plug_applyValue (payload : List Value) (t : Term) :
    Kont.plug (payload.map .applyValue ++ kont) t =
      kont.plug ((payload.map Value.discharge).foldl .app t) := by
  induction payload generalizing t with
  | nil => rfl
  | cons v payload ih => exact ih _

theorem wellFormed_applyValue {payload : List Value} (h : ∀ v ∈ payload, v.WellFormed)
    (hkont : kont.WellFormed) : Kont.WellFormed (payload.map .applyValue ++ kont) := by
  intro frame hframe
  rcases mem_append.1 hframe with hframe | hframe
  · obtain ⟨v, hv, rfl⟩ := mem_map.1 hframe
    exact h v hv
  · exact hkont frame hframe

section Cases
variable {branches : List Term}

theorem getElem?_under (i : Nat) :
    (branches.map (under · env))[i]? = branches[i]?.map (under · env) :=
  getElem?_map

theorem caseConst_sound (c : Constant) (hbranches : ∀ b ∈ branches, Closed env.length b)
    (henv : env.WellFormed) (hkont : kont.WellFormed) :
    Sound δ variant.caseOnConstantAvailable
      (kont.plug (.case (.const c) (branches.map (under · env)))) (kont.weight + 2)
      (returnCompute denote freeCharge variant (.const c) (.cases branches env :: kont) ()) := by
  -- no branch is selected
  have hfail : (∀ i payload, variant.caseOnConstantAvailable = true →
      Selects branches.length c i payload → branches[i]? = none) →
      Stuck δ variant.caseOnConstantAvailable
        (kont.plug (.case (.const c) (branches.map (under · env)))) := by
    intro h
    refine hkont.stuck (stuck_case (.const c) nofun fun c' i payload hc hon hsel => ?_)
    cases hc
    rw [length_map] at hsel
    rw [getElem?_under, h i payload hon hsel, Option.map_none]
  simp only [returnCompute, projectScrutinee]
  split
  · next hon =>
    cases hproj : projectConstant branches.length c with
    | error e =>
      refine .fail (hfail fun i payload _ hsel => ?_)
      obtain ⟨max, hok, -⟩ := hsel.project
      cases hok.symm.trans hproj
    | ok r =>
    obtain ⟨i, vs, max⟩ := r
    simp only [bind, Except.bind]
    split
    · next hmax =>
      refine .fail (hfail fun j payload _ hsel => ?_)
      obtain ⟨max', hok, hmax'⟩ := hsel.project
      cases hok.symm.trans hproj
      rw [hmax] at hmax'
      cases hmax'
    · next hmax =>
      obtain ⟨payload, rfl, hsel⟩ := selects_of_project hproj (Bool.eq_false_iff.2 hmax)
      cases hbranch : branches[i]? with
      | none =>
        refine .fail (hfail fun j payload' _ hsel' => ?_)
        rwa [(hsel'.unique hsel).1]
      | some b =>
      have hb := hbranches b (mem_of_getElem? hbranch)
      have hpayload : ∀ v ∈ payload.map Value.const, v.WellFormed :=
        forall_mem_map.2 fun c _ => .const c
      refine .red ⟨hb, henv, wellFormed_applyValue hpayload hkont⟩ ?_
      rw [term, plug_applyValue, map_map]
      have hsel' : Selects (branches.map (under · env)).length c i payload := by rwa [length_map]
      exact hkont.red (.caseConst hon hsel' (by rw [getElem?_under, hbranch, Option.map_some]))
  · next hoff => exact .fail (hfail fun _ _ hon => absurd hon hoff)

theorem cases_sound (hv : v.WellFormed)
    (hbranches : ∀ b ∈ branches, Closed env.length b) (henv : env.WellFormed)
    (hkont : kont.WellFormed) :
    Sound δ variant.caseOnConstantAvailable
      (kont.plug (.case v.discharge (branches.map (under · env)))) (kont.weight + 2)
      (returnCompute denote freeCharge variant v (.cases branches env :: kont) ()) := by
  have hvv := hv.isValue
  cases hv with
  | const c => exact caseConst_sound c hbranches henv hkont
  | @constr tag args hargs =>
    simp only [returnCompute, projectScrutinee, bind, Except.bind, Option.any_none,
      Bool.false_eq_true, if_false]
    cases hbranch : branches[tag]? with
    | none =>
      refine .fail (hkont.stuck (stuck_case hvv (fun tag' args' hconstr => ?_) nofun))
      obtain rfl := (constr.inj hconstr).1
      rw [getElem?_under, hbranch, Option.map_none]
    | some b =>
    have hb := hbranches b (mem_of_getElem? hbranch)
    refine .red ⟨hb, henv, wellFormed_applyValue hargs hkont⟩ ?_
    rw [term, plug_applyValue, Value.discharge, Value.dischargeAll_eq_map]
    refine hkont.red (.caseConstr (forall_mem_map.2 fun v hv => (hargs v hv).isValue) ?_)
    rw [getElem?_under, hbranch, Option.map_some]
  | lambda _ _ | delay _ _ => exact .fail (hkont.stuck (stuck_case hvv nofun nofun))
  | @builtin id forces args _ _ _ _ =>
    have hspine := spine_discharge_builtin id forces args
    refine .fail (hkont.stuck (stuck_case hvv (fun tag args hconstr => ?_)
      fun c i payload hconst => ?_))
    · rw [hconstr] at hspine
      cases hspine
    · rw [hconst] at hspine
      cases hspine

end Cases

theorem returnCompute_sound (hδ : Computes denote variant δ) (hv : v.WellFormed)
    (hframe : frame.WellFormed) (hkont : kont.WellFormed) :
    Sound δ variant.caseOnConstantAvailable (ret v (frame :: kont)).term
      (ret v (frame :: kont)).measure
      (returnCompute denote freeCharge variant v (frame :: kont) ()) := by
  cases frame with
  | awaitArg function env' =>
    rw [State.measure, Kont.weight_cons, Frame.weight, add_comm 1]
    exact apply_sound hδ hframe hv hkont
  | awaitFunTerm argument env' =>
    refine .move ⟨hframe.1, hframe.2, hkont.cons hv⟩ rfl ?_
    simp only [State.measure, Kont.weight_cons, Frame.weight]
    omega
  | force =>
    rw [State.measure, Kont.weight_cons, Frame.weight, add_comm 1]
    exact forceValue_sound hδ hv hkont
  | applyValue argument =>
    rw [State.measure, Kont.weight_cons, Frame.weight, add_comm 1]
    exact apply_sound hδ hv hframe hkont
  | constr tag pending evaluated env' =>
    obtain ⟨hpending, hevaluated, henv⟩ := hframe
    have hevaluated' : ∀ w ∈ evaluated ++ [v], w.WellFormed := by
      intro w hw
      rcases mem_append.1 hw with hw | hw
      · exact hevaluated w hw
      · rwa [mem_singleton.1 hw]
    cases pending with
    | nil =>
      refine .move ⟨.constr tag hevaluated', hkont⟩ ?_ ?_
      · rw [term, Value.discharge, Value.dischargeAll_eq_map, map_append]
        rfl
      · simp only [State.measure, Kont.weight_cons, Frame.weight]
        omega
    | cons next pending =>
      obtain ⟨hnext, hpending⟩ := forall_mem_cons.1 hpending
      refine .move ⟨hnext, henv, hkont.cons ⟨hpending, hevaluated', henv⟩⟩ ?_ ?_
      · simp only [term, Kont.plug, foldl_cons, Frame.plug, map_append,
          map_cons, map_nil, append_assoc, cons_append, nil_append]
      · simp only [State.measure, Kont.weight_cons, Frame.weight, cons.sizeOf_spec]
        omega
  | cases branches env' =>
    rw [State.measure, Kont.weight_cons, Frame.weight, add_comm 1]
    exact cases_sound hv hframe.1 hframe.2 hkont

end OneStep

/-! ## Whole runs -/

section Runs
variable {δ : BuiltinId → List Term → Option Term} {denote : Denotation}
  {variant : SemanticsVariant} {s : State} {t : Term}

section
variable (hδ : Computes denote variant δ)
include hδ

theorem step_sound (hs : s.WellFormed) :
    (∃ v, v.WellFormed ∧ s = .ret v []) ∨ Sound δ variant.caseOnConstantAvailable s.term s.measure
      (step denote freeCharge variant s ()) := by
  cases s with
  | compute t env kont => exact .inr (compute_sound hs.1 hs.2.1 hs.2.2)
  | ret v kont =>
    cases kont with
    | nil => exact .inl ⟨v, hs.1, rfl⟩
    | cons frame kont =>
      obtain ⟨hframe, hkont⟩ := forall_mem_cons.1 hs.2
      exact .inr (returnCompute_sound hδ hs.1 hframe hkont)
  | done v => exact hs.elim

/-- What a turn of the loop may make of a state. -/
def Turned (δ : BuiltinId → List Term → Option Term) (onConstants : Bool) (s : State) :
    State ⊕ Except UplcError Value → Prop
  | .inl s' => s'.WellFormed ∧
      (Red δ onConstants s.term s'.term ∨ s'.term = s.term ∧ s'.measure < s.measure)
  | .inr (.ok v) => s.term = v.discharge ∧ v.WellFormed
  | .inr (.error _) => Stuck δ onConstants s.term

theorem freeLoop_sound (hs : s.WellFormed) :
    Turned δ variant.caseOnConstantAvailable s (freeLoop denote variant s) := by
  rw [freeLoop, freeStep]
  rcases step_sound hδ hs with ⟨v, hv, rfl⟩ | hsound
  · exact ⟨rfl, hv⟩
  generalize step denote freeCharge variant s () = result at hsound
  cases hsound with
  | @red s' hs' hred =>
    cases s' with
    | done v => exact hs'.elim
    | compute t env kont | ret v kont => exact ⟨hs', .inl hred⟩
  | @move s' hs' heq hlt =>
    cases s' with
    | done v => exact hs'.elim
    | compute t env kont | ret v kont => exact ⟨hs', .inr ⟨heq, hlt⟩⟩
  | fail hstuck => exact hstuck

theorem implements :
    Simulation.Implements (freeLoop denote variant) (Red δ variant.caseOnConstantAvailable)
      State.WellFormed term measure where
  kept hs hnext := (hnext ▸ freeLoop_sound hδ hs : Turned _ _ _ (.inl _)).1
  step hs hnext := (hnext ▸ freeLoop_sound hδ hs : Turned _ _ _ (.inl _)).2
  normal {s result} hs hnext t := by
    have hturn := freeLoop_sound hδ hs
    rw [hnext] at hturn
    cases result with
    | ok v =>
      rw [hturn.1]
      exact hturn.2.isValue.not_red
    | error e => exact hturn.2 t

end

theorem wellFormed_initial (h : Closed 0 t) : (initial t).WellFormed := ⟨h, nofun, nofun⟩

theorem term_initial (h : Closed 0 t) : (initial t).term = t := h.inst_eq []

open Relation (ReflTransGen)

/-- Where a run ends the term is what the outcome says. -/
theorem reduces_of_evaluates (hδ : Computes denote variant δ) (ht : Closed 0 t)
    {result : Except UplcError Value} (h : Evaluates denote variant t result) :
    ∃ t', ReflTransGen (Red δ variant.caseOnConstantAvailable) t t' ∧
      (∀ v, result = .ok v → t' = v.discharge ∧ IsValue t') ∧
      ∀ e, result = .error e → Stuck δ variant.caseOnConstantAvailable t' := by
  obtain ⟨last, hlast, hout, hred⟩ := (implements hδ).reduces (wellFormed_initial ht) h
  rw [term_initial ht] at hred
  have hturn := freeLoop_sound hδ hlast
  rw [hout] at hturn
  refine ⟨last.term, hred, ?_, ?_⟩
  · rintro v rfl
    exact ⟨hturn.1, hturn.1 ▸ hturn.2.isValue⟩
  · rintro e rfl
    exact hturn

/-- The normal form of a term is unique. -/
theorem eq_of_normal {onConstants : Bool} {t₁ t₂ : Term}
    (h₁ : ReflTransGen (Red δ onConstants) t t₁) (hn₁ : ∀ u, ¬ Red δ onConstants t₁ u)
    (h₂ : ReflTransGen (Red δ onConstants) t t₂) (hn₂ : ∀ u, ¬ Red δ onConstants t₂ u) :
    t₁ = t₂ := by
  induction h₁ using ReflTransGen.head_induction_on with
  | refl =>
    cases h₂.cases_head with
    | inl heq => exact heq
    | inr hstep =>
      obtain ⟨u, hu, -⟩ := hstep
      exact absurd hu (hn₁ u)
  | head hstep _ ih =>
    cases h₂.cases_head with
    | inl heq => exact absurd (heq ▸ hstep) (hn₂ _)
    | inr hstep' =>
      obtain ⟨u, hu, hrest⟩ := hstep'
      obtain rfl := hstep.unique hu
      exact ih hrest

/-- The machine returns a value exactly if the term reduces to what the value stands for, and fails
exactly if the term gets stuck. -/
theorem evaluate_adequate (hδ : Computes denote variant δ) {t : Term} (ht : Closed 0 t) :
    (∀ w, (∃ v, Evaluates denote variant t (.ok v) ∧ v.discharge = w) ↔
      ReflTransGen (Red δ variant.caseOnConstantAvailable) t w ∧ IsValue w) ∧
    ((∃ e, Evaluates denote variant t (.error e)) ↔
      ∃ t', ReflTransGen (Red δ variant.caseOnConstantAvailable) t t' ∧
        Stuck δ variant.caseOnConstantAvailable t') := by
  have hends : ∀ {w}, ReflTransGen (Red δ variant.caseOnConstantAvailable) t w →
      (∀ u, ¬ Red δ variant.caseOnConstantAvailable w u) →
      ∃ result, Evaluates denote variant t result := by
    intro w hred hnormal
    refine (implements hδ).halts Red.unique (wellFormed_initial ht) ?_ hnormal
    rwa [term_initial ht]
  refine ⟨fun w => ⟨?_, ?_⟩, ?_, ?_⟩
  · rintro ⟨v, hv, rfl⟩
    obtain ⟨t', hred, hok, -⟩ := reduces_of_evaluates hδ ht hv
    obtain ⟨rfl, hvalue⟩ := hok v rfl
    exact ⟨hred, hvalue⟩
  · rintro ⟨hred, hvalue⟩
    obtain ⟨result, hresult⟩ := hends hred fun u => hvalue.not_red
    obtain ⟨t', hred', hok, herror⟩ := reduces_of_evaluates hδ ht hresult
    cases result with
    | ok v =>
      obtain ⟨rfl, hv⟩ := hok v rfl
      exact ⟨v, hresult, eq_of_normal hred' (fun u => hv.not_red) hred fun u => hvalue.not_red⟩
    | error e =>
      have hstuck := herror e rfl
      obtain rfl := eq_of_normal hred' hstuck.2 hred fun u => hvalue.not_red
      exact absurd hvalue hstuck.1
  · rintro ⟨e, he⟩
    obtain ⟨t', hred, -, herror⟩ := reduces_of_evaluates hδ ht he
    exact ⟨t', hred, herror e rfl⟩
  · rintro ⟨t', hred, hstuck⟩
    obtain ⟨result, hresult⟩ := hends hred hstuck.2
    obtain ⟨t'', hred', hok, -⟩ := reduces_of_evaluates hδ ht hresult
    cases result with
    | error e => exact ⟨e, hresult⟩
    | ok v =>
      have hvalue := (hok v rfl).2
      obtain rfl := eq_of_normal hred' (fun u => hvalue.not_red) hred hstuck.2
      exact absurd hvalue hstuck.1

/-- Builtins of which only the addition computes something. -/
def addition : Denotation
  | _, .addInteger, [.const (.integer a), .const (.integer b)] => .ok (.const (.integer (a + b)))
  | _, id, _ => .error (.builtinFailure id "unavailable")

def additionOfTerms : BuiltinId → List Term → Option Term
  | .addInteger, [.const (.integer a), .const (.integer b)] => some (.const (.integer (a + b)))
  | _, _ => none

theorem eq_const_of_discharge (h : v.discharge = .const c) : v = .const c := by
  cases v with
  | const c' =>
    cases h
    rfl
  | builtin id forces args =>
    have hspine := spine_discharge_builtin id forces args
    rw [h] at hspine
    cases hspine
  | lambda body env | delay body env | constr tag args => cases h

theorem computes_addition (variant : SemanticsVariant) :
    Computes addition variant additionOfTerms where
  ok _ _ hok := by
    unfold addition at hok
    split at hok
    · cases hok
      exact ⟨.const _, rfl⟩
    · cases hok
  error {id args e} hwf hlen herror := by
    by_contra hsome
    unfold additionOfTerms at hsome
    split at hsome
    · next a b hargs =>
      obtain ⟨v, vs, rfl, hv, hvs⟩ := map_eq_cons_iff.1 hargs
      obtain ⟨w, ws, rfl, hw, hws⟩ := map_eq_cons_iff.1 hvs
      obtain rfl := map_eq_nil_iff.1 hws
      obtain rfl := eq_const_of_discharge hv
      obtain rfl := eq_const_of_discharge hw
      cases herror
    · exact hsome rfl

/-- A function that adds its argument to itself, applied to three. -/
def doubleThree : Term :=
  .app (.lam (.app (.app (.builtin .addInteger) (.var 1)) (.var 1))) (.const (.integer 3))

theorem doubleThree_evaluates : ∃ v, Evaluates addition .latest doubleThree (.ok v) ∧
    v.discharge = .const (.integer 6) := by
  have hclosed : Closed 0 doubleThree :=
    .app (.lam (.app (.app .builtin (.var le_rfl le_rfl)) (.var le_rfl le_rfl))) .const
  have hargs : IsValue (.app (.builtin .addInteger) (.const (.integer 3))) :=
    .app (.builtin _) rfl (by decide) (.const _)
  refine ((evaluate_adequate (computes_addition _) hclosed).1 _).2 ⟨?_, .const _⟩
  exact .head (.beta (.const _)) (.single (.builtinApp hargs rfl (.const _) rfl rfl))

end Runs

end Dugite.Uplc
