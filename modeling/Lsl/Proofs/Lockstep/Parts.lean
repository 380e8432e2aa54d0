/- # Bodies that are resolved apart

The bodies of a script share nothing but the declarations: a body can be resolved
right behind the declarations, or behind other bodies, and in a script that has
its declarations in another order. In each case it says the same, notes the same
uses on the declarations, and makes the same nodes but for the numbers.

Key definitions: `Run.Abreast`, `Part`, `Part.Follows`.
Key theorems: `Part.follows`, `resolveFunction_ok`, `resolveState_ok`.
-/
import Lsl.Proofs.Lockstep.Declarations
import Lsl.Proofs.Scoping.Scripts

namespace Lsl

variable {g : Nat → Nat} {base run run' a r : Run} {env env' : Env} {N : Nat → Prop} {m : Nat}

/-! ### Runs with the same declarations -/

theorem Tree.exists_kind? {t : Tree} {i : Nat} (h : t.Has i) : ∃ k, t.kind? i = some k := by
  obtain ⟨n, hn⟩ := Tree.exists_node? h
  exact ⟨n.kind, Tree.kind?_of_node? hn⟩

/-- A run that knows the nodes of `base` by the numbers that `g` gives them. -/
structure Run.Abreast (g : Nat → Nat) (base run : Run) : Prop where
  inj : Function.Injective g
  stays : ∀ i, base.tree.Has i → base.tree.Has (g i)
  size : base.tree.size ≤ run.tree.size
  heading : ∀ i, base.tree.Has i →
    (run.tree.kind? (g i)).map (·.heading) = (base.tree.kind? i).map (·.heading.rename g)
  span : ∀ i, base.tree.Has i → run.tree.span (g i) = base.tree.span i

/-- The number that a node behind `base` has behind `run`. -/
def Run.moved (g : Nat → Nat) (base run : Run) (i : Nat) : Nat :=
  if i < base.tree.size then g i else run.tree.size + (i - base.tree.size)

theorem Run.moved_of_has {i : Nat} (h : base.tree.Has i) : Run.moved g base run i = g i := if_pos h

theorem Run.moved_of_le {i : Nat} (h : base.tree.size ≤ i) :
    Run.moved g base run i = run.tree.size + (i - base.tree.size) := if_neg (Nat.not_lt.mpr h)

namespace Run.Abreast

theorem has (h : Run.Abreast g base run) {i : Nat} (hi : base.tree.Has i) : run.tree.Has (g i) :=
  Nat.lt_of_lt_of_le (h.stays i hi) h.size

/-- A run that goes on still knows the declarations. -/
theorem grows {P : Nat → Prop} (h : Run.Abreast g base run) (hg : run.tree.Grows P r.tree) :
    Run.Abreast g base r where
  inj := h.inj
  stays := h.stays
  size := Nat.le_trans h.size hg.size_le
  heading i hi := by
    obtain ⟨k, hk⟩ := Tree.exists_kind? (h.has hi)
    obtain ⟨k', hk', ho⟩ := hg.kind? hk
    rw [← h.heading i hi, hk, hk', Option.map_some, Option.map_some, NodeKind.heading_of_outline ho]
  span i hi := (hg.span (h.has hi)).trans (h.span i hi)

theorem moved_injective (h : Run.Abreast g base run) : Function.Injective (Run.moved g base run) := by
  have hapart : ∀ i j, base.tree.Has i → base.tree.size ≤ j →
      Run.moved g base run i ≠ Run.moved g base run j := by
    intro i j hi hj heq
    rw [Run.moved_of_has hi, Run.moved_of_le hj] at heq
    have := h.has hi
    omega
  intro i j heq
  rcases Nat.lt_or_ge i base.tree.size with hi | hi <;>
    rcases Nat.lt_or_ge j base.tree.size with hj | hj
  · rw [Run.moved_of_has hi, Run.moved_of_has hj] at heq
    exact h.inj heq
  · exact absurd heq (hapart i j hi hj)
  · exact absurd heq.symm (hapart j i hj hi)
  · rw [Run.moved_of_le hi, Run.moved_of_le hj] at heq
    omega

/-- What is made behind `base` is paired with what is made behind `run`. -/
def pairing (h : Run.Abreast g base run) (N : Nat → Prop) : Pairing where
  start := base
  start' := run
  map := Run.moved g base run
  own i := base.tree.size ≤ i
  known i := base.tree.Has i
  notable i := base.tree.Has i ∧ N i
  mono i j hi hj hlt := by
    rw [Run.moved_of_le hi, Run.moved_of_le hj]
    omega
  inj i j _ _ heq := h.moved_injective heq
  apart i j hi hj heq := by
    have := h.moved_injective heq
    omega
  known_of_notable _ hi := hi.1

/-- The runs are in step before anything is made. -/
theorem twin (h : Run.Abreast g base run)
    (hp : ∀ i f, base.tree.function? i = some f → ∀ p ∈ f.params, base.tree.Has p) :
    Run.Twin (h.pairing N) false base run where
  told := ⟨[], by simp [pairing], by simp [pairing]⟩
  around hi := by cases hi
  tree :=
    { next := fun j => by
        change Run.moved g base run (base.tree.size + j) = _
        rw [Run.moved_of_le (Nat.le_add_right _ _)]
        omega
      fresh := fun j => Nat.le_add_right _ _
      node := fun i hi => by
        change run.tree.node? (Run.moved g base run i) = _
        rw [Run.moved_of_le hi, Tree.node?_eq_none.mpr (Nat.le_add_right _ _),
          Tree.node?_eq_none.mpr hi]
        rfl
      up := fun i q hi hq => by
        rw [Tree.parent?, Tree.node?_eq_none.mpr hi] at hq
        cases hq
      inner := fun i k hi hk => absurd (Tree.has_of_kind? hk) (Nat.not_lt.mpr hi)
      known := fun i hi => by
        obtain ⟨k, hk⟩ := Tree.exists_kind? hi
        have hheading := h.heading i hi
        obtain ⟨k', hk'⟩ := Tree.exists_kind? (h.has hi)
        rw [hk, hk', Option.map_some, Option.map_some, Option.some.injEq] at hheading
        have hparams : ∀ f, k.function? = some f → ∀ p ∈ f.params, base.tree.Has p := fun f hf =>
          hp i f (by rw [Tree.function?, hk]; exact hf)
        refine ⟨k, k', hk, (congrArg run.tree.kind? (Run.moved_of_has hi)).trans hk', ?_, ?_, [], ?_, ?_⟩
        · rw [hheading]
          refine Heading.rename_congr fun x hx p hmem => ?_
          obtain ⟨f, hf, rfl⟩ := Option.map_eq_some_iff.mp hx
          exact (Run.moved_of_has (hparams f hf p hmem)).symm
        · exact hparams
        · rw [List.append_nil]
          exact (Tree.uses_of_kind? hk).symm
        · rw [List.map_nil, List.append_nil]
          change k'.uses = run.tree.uses (Run.moved g base run i)
          rw [Run.moved_of_has hi, Tree.uses_of_kind? hk']
      spans := fun i hi => (congrArg run.tree.span (Run.moved_of_has hi)).trans (h.span i hi)
      rest := fun _ _ _ _ => rfl
      rest' := fun _ _ _ _ => rfl }

end Run.Abreast

/-- Names stand for declarations of `base`, on the other side by their other numbers.
Functions and globals are among the declarations with `N`. -/
structure Env.Beside (g : Nat → Nat) (N : Nat → Prop) (base : Run) (env env' : Env) : Prop where
  library : env'.library = env.library
  warnUnused : env'.warnUnused = env.warnUnused
  functions : ∀ name, env'.functions.lookup name = (env.functions.lookup name).map g
  function : ∀ name, ∀ id ∈ env.functions.lookup name, base.tree.Has id ∧ N id
  states : ∀ name, env'.states.lookup name = (env.states.lookup name).map g
  state : ∀ name, ∀ id ∈ env.states.lookup name, base.tree.Has id
  globals : ∀ name, env'.globals.lookup name = (env.globals.lookup name).map g
  global : ∀ name, ∀ id ∈ env.globals.lookup name, base.tree.Has id ∧ N id
  outside : env.body = none
  outside' : env'.body = none

theorem Env.Beside.twin {M : Nat → Prop} (he : Env.Beside g M base env env')
    (h : Run.Abreast g base run) (hN : ∀ i, M i → N i) : env.Twin (h.pairing N) m env' := by
  have hmoved : ∀ {found : Option NodeId}, (∀ id ∈ found, base.tree.Has id) →
      found.map g = found.map (Run.moved g base run) := by
    rintro (_ | id) hid
    · rfl
    · exact congrArg some (Run.moved_of_has (hid id rfl)).symm
  constructor
  case library => exact he.library
  case warnUnused => exact he.warnUnused
  case functions =>
    exact fun name => (he.functions name).trans (hmoved fun id hid => (he.function name id hid).1)
  case callable => exact fun name id hid => (he.function name id hid).imp_right (hN id)
  case states => exact fun name => (he.states name).trans (hmoved (he.state name))
  case globals =>
    exact fun name => (he.globals name).trans (hmoved fun id hid => (he.global name id hid).1)
  case global => exact fun name id hid => .inr ((he.global name id hid).imp_right (hN id))
  case body => rw [he.outside, he.outside']
  case params => simp [Env.param?, he.outside, he.outside']
  case param => simp [Env.param?, he.outside]
  case labels => simp [Env.label?, he.outside, he.outside']
  case label => simp [Env.label?, he.outside]

/-! ### Warnings about what is not used -/

/-- The warning about a declaration that nothing refers to. -/
def Tree.unused (t : Tree) (name? : Heading → Option String) (warning : String → Warning)
    (id : NodeId) : List Notice :=
  ((t.kind? id).bind fun k =>
    if k.uses.isEmpty then (name? k.heading).map fun name => .warning (warning name) (t.span id)
    else none).toList

def Heading.varName? (h : Heading) : Option String := h.var.map (·.1)

def Heading.functionName? (h : Heading) : Option String := h.function.map (·.1)

theorem Heading.varName?_rename (f : NodeId → NodeId) (h : Heading) :
    (h.rename f).varName? = h.varName? := rfl

theorem Heading.functionName?_rename (f : NodeId → NodeId) (h : Heading) :
    (h.rename f).functionName? = h.functionName? := by
  simp only [functionName?, rename, Option.map_map]
  rfl

/-- The same declaration, used on both sides or on none, is warned about alike. -/
theorem Tree.unused_congr {t t' : Tree} {name? : Heading → Option String}
    {warning : String → Warning} {id id' : NodeId} {f : NodeId → NodeId}
    (hname : ∀ h, name? (Heading.rename f h) = name? h)
    (hheading : (t'.kind? id').map (·.heading) = (t.kind? id).map (·.heading.rename f))
    (huses : t'.uses id' = [] ↔ t.uses id = []) (hspan : t'.span id' = t.span id) :
    t'.unused name? warning id' = t.unused name? warning id := by
  unfold Tree.unused
  rw [hspan]
  rcases hk : t.kind? id with _ | k
  · rw [hk, Option.map_none, Option.map_eq_none_iff] at hheading
    rw [hheading]
  · rw [hk, Option.map_some] at hheading
    obtain ⟨k', hk', he⟩ := Option.map_eq_some_iff.mp hheading
    rw [Tree.uses_of_kind? hk, Tree.uses_of_kind? hk', ← List.isEmpty_iff, ← List.isEmpty_iff,
      ← Bool.eq_iff_iff] at huses
    rw [hk', Option.bind_some, Option.bind_some, huses, he, hname]

theorem NodeKind.uses_of_var? {k : NodeKind} {v : Variable} (h : k.var? = some v) :
    k.uses = v.references := by
  cases k with
  | global | param => cases h; rfl
  | stmt s =>
    rcases s with ⟨kind, info⟩
    cases kind <;> cases h
    rfl
  | _ => cases h

theorem NodeKind.uses_of_function? {k : NodeKind} {f : FunctionNode} (h : k.function? = some f) :
    k.uses = f.references := by
  cases k <;> cases h
  rfl

/-- Steps that look at the tree and only say something. -/
theorem Check.forM_tells {f : NodeId → Check PUnit} (tells : Tree → NodeId → List Notice)
    (hf : ∀ id run, f id run = (⟨⟩, { run with notices := run.notices ++ tells run.tree id }))
    (ids : List NodeId) (run : Run) :
    ids.forM f run = (⟨⟩, { run with notices := run.notices ++ ids.flatMap (tells run.tree) }) := by
  induction ids generalizing run with
  | nil =>
    rw [List.flatMap_nil, List.append_nil]
    rfl
  | cons id rest ih =>
    change rest.forM f (f id run).2 = _
    rw [hf, ih, List.flatMap_cons, List.append_assoc]

/-- A declaration is warned about if it is found and nothing refers to it. -/
theorem warnUnused_run {α : Type} (find : NodeKind → Option α) (references : α → List NodeId)
    (name : α → String) (name? : Heading → Option String) (warning : String → Warning)
    (hname : ∀ k, name? (NodeKind.heading k) = (find k).map name)
    (huses : ∀ k v, find k = some v → NodeKind.uses k = references v) (id : NodeId) (run : Run) :
    (do
        let t ← Check.tree
        ((t.kind? id).bind find).forM fun v => do
          if (references v).isEmpty then Check.warn (warning (name v)) (t.span id)) run
      = (⟨⟩, { run with notices := run.notices ++ run.tree.unused name? warning id }) := by
  change (((run.tree.kind? id).bind find).forM _ : Check Unit) run = _
  unfold Tree.unused
  rcases run.tree.kind? id with _ | k
  · simp
    rfl
  · simp only [Option.bind_some, hname]
    rcases hv : find k with _ | v
    · simp
      rfl
    · simp only [huses k v hv, Option.map_some]
      change (if (references v).isEmpty = true then Check.warn _ _ else pure ⟨⟩ : Check Unit) run = _
      by_cases hempty : (references v).isEmpty = true
      · simp only [hempty, if_true]
        rfl
      · simp only [hempty, Bool.false_eq_true, if_false, Option.toList_none, List.append_nil]
        rfl

theorem warnUnusedParams_run (params : List NodeId) (run : Run) :
    warnUnusedParams params run = (⟨⟩, { run with
      notices := run.notices
        ++ params.flatMap (run.tree.unused Heading.varName? .parameterNeverUsed) }) :=
  Check.forM_tells (fun t => t.unused Heading.varName? .parameterNeverUsed)
    (warnUnused_run NodeKind.var? (·.references) (·.name) _ _
      (fun k => by simp only [Heading.varName?, NodeKind.heading, Option.map_map]; rfl)
      fun _ _ => NodeKind.uses_of_var?) params run

theorem warnUnusedGlobals_run (globals functions : List NodeId) (run : Run) :
    warnUnusedGlobals globals functions run = (⟨⟩, { run with
      notices := run.notices
        ++ globals.flatMap (run.tree.unused Heading.varName? .globalNeverUsed)
        ++ functions.flatMap (run.tree.unused Heading.functionName? .functionNeverUsed) }) := by
  have hglobals := Check.forM_tells (fun t => t.unused Heading.varName? .globalNeverUsed)
    (warnUnused_run NodeKind.var? (·.references) (·.name) _ .globalNeverUsed
      (fun k => by simp only [Heading.varName?, NodeKind.heading, Option.map_map]; rfl)
      fun _ _ => NodeKind.uses_of_var?) globals run
  have hfunctions := fun run => Check.forM_tells
    (fun t => t.unused Heading.functionName? .functionNeverUsed)
    (warnUnused_run NodeKind.function? (·.references) (·.name) _ .functionNeverUsed
      (fun k => by simp only [Heading.functionName?, NodeKind.heading, Option.map_map]; rfl)
      fun _ _ => NodeKind.uses_of_function?) functions run
  unfold warnUnusedGlobals
  rw [Check.bind_run]
  exact (congrArg (fun r => (functions.forM _ : Check PUnit) r.2) hglobals).trans (hfunctions _)

/-! ### What resolving a part does -/

theorem Tree.span_markError {t : Tree} {id i : Nat} : (t.markError id).span i = t.span i := by
  rcases Nat.lt_or_ge i t.size with hi | hi
  · exact (Tree.grows_markError (P := fun _ => True)).span hi
  · rw [Tree.span, Tree.span, Tree.node?_eq_none.mpr hi,
      Tree.node?_eq_none.mpr (by rwa [Tree.size_markError])]

/-- What a function still has to say once its body is resolved. -/
def FunctionDecl.lateNotices (d : FunctionDecl) (warnUnused : Bool) (t : Tree) (body : NodeId)
    (params : List NodeId) : List Notice :=
  (if !d.returnType.isVoid && !((t.scope? body).any (·.hasReturnPath)) then
      [.fault (.notAllPathsReturn d.name) d.span] else [])
    ++ if warnUnused then params.flatMap (t.unused Heading.varName? .parameterNeverUsed) else []

theorem resolveFunction_ok {d : FunctionDecl} {id : NodeId}
    (h : resolveFunction env d id run = .ok ((), r)) :
    ∃ f inner r₁ body r₂ f₂, run.tree.function? id = some f
      ∧ enterBody env d.name d.returnType false f.params d.body run = (inner, r₁)
      ∧ resolveBlock inner .functionBody d.body r₁ = .ok (body, r₂)
      ∧ r₂.tree.function? id = some f₂
      ∧ (∀ i, r.tree.kind? i
        = if i = id then some (.function { f₂ with body := some body }) else r₂.tree.kind? i)
      ∧ r.notices = r₂.notices ++ d.lateNotices env.warnUnused r₂.tree body f.params := by
  unfold resolveFunction at h
  obtain ⟨r₀, r₁, hget, h⟩ := CheckBody.bind_ok h
  obtain ⟨rfl, rfl⟩ := CheckBody.pure_ok (b := r₀) hget
  obtain ⟨f, r₁, hexpect, h⟩ := CheckBody.bind_ok h
  obtain ⟨hf, rfl⟩ := CheckBody.expect_ok hexpect
  rw [CheckBody.lift_bind] at h
  obtain ⟨⟨inner, r₁⟩, henter⟩ : ∃ x, enterBody env d.name d.returnType false f.params d.body run = x :=
    ⟨_, rfl⟩
  rw [henter] at h
  obtain ⟨body, r₂, hblock, h⟩ := CheckBody.bind_ok h
  obtain ⟨r₀, r₃, hget, h⟩ := CheckBody.bind_ok h
  obtain ⟨rfl, rfl⟩ := CheckBody.pure_ok (b := r₀) hget
  -- the function is marked if it should return and does not
  obtain ⟨r₃, hkinds₃, hspans₃, hnotices₃, h⟩ : ∃ r₃ : Run, (∀ i, r₃.tree.kind? i = r₂.tree.kind? i)
      ∧ (∀ i, r₃.tree.span i = r₂.tree.span i)
      ∧ r₃.notices = r₂.notices ++ (if !d.returnType.isVoid
          && !((r₂.tree.scope? body).any (·.hasReturnPath)) then
            [.fault (.notAllPathsReturn d.name) d.span] else [])
      ∧ ((if env.warnUnused = true then
          (liftM (warnUnusedParams f.params) : CheckBody Unit) >>= fun _ => finishFunction id body
        else finishFunction id body) : CheckBody Unit) r₃ = .ok ((), r) := by
    by_cases hc : (!d.returnType.isVoid && !((r₂.tree.scope? body).any (·.hasReturnPath))) = true
    · simp only [hc, ↓reduceIte] at h
      exact ⟨_, fun i => Tree.kind?_markError, fun i => Tree.span_markError, (if_pos hc).symm ▸ rfl, h⟩
    · simp only [hc, Bool.false_eq_true, ↓reduceIte] at h
      exact ⟨r₂, fun _ => rfl, fun _ => rfl, by rw [if_neg hc, List.append_nil], h⟩
  obtain ⟨r₄, htree₄, hnotices₄, h⟩ : ∃ r₄ : Run, r₄.tree = r₃.tree
      ∧ r₄.notices = r₃.notices ++ (if env.warnUnused then
          f.params.flatMap (r₂.tree.unused Heading.varName? .parameterNeverUsed) else [])
      ∧ finishFunction id body r₄ = .ok ((), r) := by
    have hunused : r₃.tree.unused = r₂.tree.unused := by
      funext name? warning i
      unfold Tree.unused
      rw [hkinds₃, hspans₃]
    split at h
    · rename_i hw
      rw [CheckBody.lift_bind, warnUnusedParams_run, hunused] at h
      refine ⟨_, ?_, ?_, h⟩
      · rfl
      · rw [if_pos hw]
    · rename_i hw
      exact ⟨r₃, rfl, by rw [if_neg hw, List.append_nil], h⟩
  unfold finishFunction at h
  rw [CheckBody.lift_bind] at h
  obtain ⟨r₀, r₅, hget, h⟩ := CheckBody.bind_ok h
  obtain ⟨rfl, rfl⟩ := CheckBody.pure_ok (b := r₀) hget
  obtain ⟨f₂, r₅, hexpect, h⟩ := CheckBody.bind_ok h
  obtain ⟨hf₂, rfl⟩ := CheckBody.expect_ok hexpect
  cases h
  have hkind₄ : ∀ i, r₄.tree.kind? i = r₂.tree.kind? i := fun i => by rw [htree₄, hkinds₃]
  refine ⟨f, inner, r₁, body, r₂, f₂, hf, henter, hblock, ?_, fun i => ?_, ?_⟩
  · rw [Tree.function?, ← hkind₄]
    exact hf₂
  · have hfill := Tree.kind?_fill (t := r₄.tree) (i := i) (.function { f₂ with body := some body })
      (Tree.has_of_kind? (Tree.function?_eq_some.mp hf₂))
    rw [hkind₄] at hfill
    exact hfill
  · change r₄.notices = _
    rw [hnotices₄, hnotices₃, List.append_assoc]
    rfl

theorem resolveState_ok {d : StateDecl} {id : NodeId} (h : resolveState env d id run = .ok ((), r)) :
    ∃ handlers r₁ s, resolveHandlers env d.name [] d.handlers run = .ok (handlers, r₁)
      ∧ r₁.tree.kind? id = some (.state s)
      ∧ (∀ i, r.tree.kind? i
        = if i = id then some (.state { s with handlers }) else r₁.tree.kind? i)
      ∧ r.notices = r₁.notices := by
  unfold resolveState at h
  obtain ⟨handlers, r₁, hhandlers, h⟩ := CheckBody.bind_ok h
  obtain ⟨r₀, r₂, hget, h⟩ := CheckBody.bind_ok h
  obtain ⟨rfl, rfl⟩ := CheckBody.pure_ok (b := r₀) hget
  rcases hk : r₁.tree.kind? id with _ | k
  · simp only [hk] at h
    cases h
  · cases k with
    | state s =>
      simp only [hk] at h
      cases h
      exact ⟨handlers, r₁, s, hhandlers, hk, fun i => Tree.kind?_fill _ (Tree.has_of_kind? hk), rfl⟩
    | _ =>
      simp only [hk] at h
      cases h

/-! ### Parts of a script -/

/-- The node is a function or a global, which all bodies may use. -/
def Tree.Shared (t : Tree) (i : NodeId) : Prop :=
  t.sort? i = some .function ∨ t.sort? i = some .global

/-- A declared function or state that gets its body or its handlers. -/
inductive Part where
  | function (d : FunctionDecl) (id : NodeId)
  | state (d : StateDecl) (id : NodeId)

namespace Part

def node : Part → NodeId
  | function _ id | state _ id => id

def resolve (env : Env) : Part → CheckBody Unit
  | function d id => resolveFunction env d id
  | state d id => resolveState env d id

/-- The same part of a script whose nodes have other numbers. -/
def renumber (g : Nat → Nat) : Part → Part
  | function d id => function d (g id)
  | state d id => state d (g id)

/-- The parameters that are declared ahead of the body. -/
def params (t : Tree) : Part → List NodeId
  | function _ id => ((t.function? id).map (·.params)).getD []
  | state .. => []

/-- The part is declared and not yet resolved. -/
def Declared (t : Tree) : Part → Prop
  | function d id => t.HasFunction d id
  | state d id => t.HasState d id

/-- The declarations on which the part may note uses. -/
def Notes (t : Tree) (x : Part) (i : NodeId) : Prop := t.Shared i ∨ i ∈ x.params t

end Part

/-- What a function or state is filled with. -/
def Tree.filling (t : Tree) (id : NodeId) : List NodeId := ((t.kind? id).map (·.filling)).getD []

/-- What comes of a part that is resolved right behind the declarations, and of
the same part that is resolved elsewhere. -/
structure Part.Follows (g : Nat → Nat) (base run : Run) (x : Part) (a r : Run) : Prop where
  told : ∃ ns, a.notices = base.notices ++ ns ∧ r.notices = run.notices ++ ns
  uses : ∀ i, base.tree.Has i → ∃ added, a.tree.uses i = base.tree.uses i ++ added
    ∧ r.tree.uses (g i) = run.tree.uses (g i) ++ added.map (Run.moved g base run)
  copies : ∀ i, base.tree.size ≤ i →
    r.tree.kind? (Run.moved g base run i) = (a.tree.kind? i).map (·.rename (Run.moved g base run))
  closed : ∀ i, base.tree.size ≤ i → ∀ c ∈ a.tree.children i, base.tree.size ≤ c ∧ a.tree.Has c
  filling : r.tree.filling (g x.node) = (a.tree.filling x.node).map (Run.moved g base run)
  filled : ∀ i ∈ a.tree.filling x.node, base.tree.size ≤ i ∧ a.tree.Has i
  keeps : ∀ j, run.tree.Has j → (∀ i, base.tree.Has i → x.Notes base.tree i ∨ i = x.node → g i ≠ j) →
    r.tree.kind? j = run.tree.kind? j

/-- Trees in step, in which one declaration is then filled. -/
theorem Part.Follows.of_twin {x : Part} {h : Run.Abreast g base run} {b b' : Run} {inside : Bool}
    (k k' : NodeKind) (late : List Notice)
    (ht : Run.Twin (h.pairing (x.Notes base.tree)) inside b b') (hx : base.tree.Has x.node)
    (hkind : ∀ i, a.tree.kind? i = if i = x.node then some k else b.tree.kind? i)
    (hkind' : ∀ i, r.tree.kind? i = if i = g x.node then some k' else b'.tree.kind? i)
    (hk : k.uses = b.tree.uses x.node) (hk' : k'.uses = b'.tree.uses (g x.node))
    (hfilling : k'.filling = k.filling.map (Run.moved g base run))
    (hfilled : ∀ i ∈ k.filling, (h.pairing (x.Notes base.tree)).At b.tree.size i)
    (hnotices : a.notices = b.notices ++ late) (hnotices' : r.notices = b'.notices ++ late) :
    x.Follows g base run a r := by
  have huses : ∀ i, a.tree.uses i = b.tree.uses i := by
    intro i
    by_cases hi : i = x.node
    · rw [hi, ← hk, Tree.uses, hkind, if_pos rfl]
      rfl
    · rw [Tree.uses, hkind, if_neg hi, Tree.uses]
  have huses' : ∀ i, r.tree.uses i = b'.tree.uses i := by
    intro i
    by_cases hi : i = g x.node
    · rw [hi, ← hk', Tree.uses, hkind', if_pos rfl]
      rfl
    · rw [Tree.uses, hkind', if_neg hi, Tree.uses]
  have hown : ∀ i, base.tree.size ≤ i → a.tree.kind? i = b.tree.kind? i := fun i hi => by
    rw [hkind, if_neg fun he : i = x.node => by omega]
  have hmade : ∀ {i}, (h.pairing (x.Notes base.tree)).At b.tree.size i →
      base.tree.size ≤ i ∧ a.tree.Has i := by
    intro i hi
    obtain ⟨k₀, hk₀⟩ := Tree.exists_kind? hi.2
    exact ⟨hi.1, Tree.has_of_kind? ((hown i hi.1).trans hk₀)⟩
  constructor
  case told =>
    obtain ⟨ns, hns, hns'⟩ := ht.told
    exact ⟨ns ++ late, by rw [hnotices, hns, List.append_assoc]; rfl,
      by rw [hnotices', hns', List.append_assoc]; rfl⟩
  case uses =>
    intro i hi
    obtain ⟨kb, kb', hkb, hkb', hakin⟩ := ht.tree.known i hi
    obtain ⟨added, hadd, hadd'⟩ := hakin.uses
    have hmap : (h.pairing (x.Notes base.tree)).map i = g i := Run.moved_of_has hi
    rw [hmap] at hkb' hadd'
    exact ⟨added, by rw [huses, Tree.uses_of_kind? hkb, hadd]; rfl,
      by rw [huses', Tree.uses_of_kind? hkb', hadd']; rfl⟩
  case copies =>
    intro i hi
    rw [hown i hi, hkind', if_neg]
    · exact ht.tree.kind? hi
    · intro (he : Run.moved g base run i = g x.node)
      rw [Run.moved_of_le hi] at he
      have := h.has hx
      omega
  case closed =>
    intro i hi c hc
    rw [Tree.children, hown i hi] at hc
    rcases hkb : b.tree.kind? i with _ | kb
    · rw [hkb] at hc
      cases hc
    · rw [hkb] at hc
      exact hmade (ht.tree.inner i kb hi hkb c (kb.children_subset_mentions hc))
  case filling =>
    rw [Tree.filling, hkind', if_pos rfl, Tree.filling, hkind, if_pos rfl]
    exact hfilling
  case filled =>
    intro i hi
    rw [Tree.filling, hkind, if_pos rfl] at hi
    exact hmade (hfilled i hi)
  case keeps =>
    intro j hj hnot
    rw [hkind', if_neg fun he => hnot x.node hx (.inr rfl) he.symm]
    refine ht.tree.rest' j hj (fun i hi he => ?_) fun i hi he => ?_
    · change Run.moved g base run i = j at he
      rw [Run.moved_of_le hi] at he
      omega
    · change Run.moved g base run i = j at he
      rw [Run.moved_of_has hi.1] at he
      exact hnot i hi.1 (.inl hi.2) he

/-- What a function says once its body is resolved is the same on both sides. -/
theorem lateNotices_twin {F : Pairing} {inside : Bool} {b b' : Run} (d : FunctionDecl)
    (warnUnused : Bool) (ht : Run.Twin F inside b b') {body : NodeId} (hb : F.own body)
    {params : List NodeId} (hp : ∀ p ∈ params, F.known p)
    (hfresh : ∀ p ∈ params, F.start'.tree.uses (F.map p) = [] ↔ F.start.tree.uses p = []) :
    d.lateNotices warnUnused b'.tree (F.map body) (params.map F.map)
      = d.lateNotices warnUnused b.tree body params := by
  have hreturns : (b'.tree.scope? (F.map body)).any (·.hasReturnPath)
      = (b.tree.scope? body).any (·.hasReturnPath) := by
    rw [ht.tree.scope? hb, Option.any_map]
    exact congrArg (Option.any · _) (funext fun c => c.hasReturnPath_rename F.map)
  have hunused : (params.map F.map).flatMap (b'.tree.unused Heading.varName? .parameterNeverUsed)
      = params.flatMap (b.tree.unused Heading.varName? .parameterNeverUsed) := by
    rw [List.flatMap_map]
    refine List.flatMap_congr fun p hmem => ?_
    have hknown := hp p hmem
    obtain ⟨k, k', hk, hk', hakin⟩ := ht.tree.known p hknown
    obtain ⟨added, hadd, hadd'⟩ := hakin.uses
    refine Tree.unused_congr (Heading.varName?_rename F.map) ?_ ?_ (ht.tree.spans p hknown)
    · rw [hk, hk', Option.map_some, Option.map_some, hakin.heading]
    · rw [Tree.uses_of_kind? hk, Tree.uses_of_kind? hk', hadd, hadd', List.append_eq_nil_iff,
        List.append_eq_nil_iff, hfresh p hmem, List.map_eq_nil_iff]
  rw [FunctionDecl.lateNotices, hreturns, hunused, FunctionDecl.lateNotices]

theorem Part.Declared.has {t : Tree} {x : Part} (h : x.Declared t) : t.Has x.node := by
  cases x with
  | function d id =>
    obtain ⟨f, hf, -⟩ := h
    exact Tree.has_of_kind? (Tree.function?_eq_some.mp hf)
  | state d id =>
    obtain ⟨s, hs, -⟩ := h
    exact Tree.has_of_kind? hs

/-- The parameters of the functions that `run` has declared are nodes of it. -/
def Tree.ParamsExist (t : Tree) : Prop :=
  ∀ i f, t.function? i = some f → ∀ p ∈ f.params, t.Has p

theorem Tree.ParamsExist.has {t : Tree} (h : t.ParamsExist) {x : Part} {p : NodeId}
    (hp : p ∈ x.params t) : t.Has p := by
  cases x with
  | function d id =>
    rcases hf : t.function? id with _ | f
    · simp [Part.params, hf] at hp
    · exact h id f hf p (by simpa [Part.params, hf] using hp)
  | state d id => cases hp

/-- **A part says the same and makes the same, wherever it is resolved.** -/
theorem Part.follows {x : Part} (h : Run.Abreast g base run)
    (he : Env.Beside g base.tree.Shared base env env')
    (hp : base.tree.ParamsExist) (hx : x.Declared base.tree)
    (hfresh : ∀ p ∈ x.params base.tree, run.tree.uses (g p) = [] ↔ base.tree.uses p = [])
    (ha : x.resolve env base = .ok ((), a)) (hr : (x.renumber g).resolve env' run = .ok ((), r)) :
    x.Follows g base run a r := by
  have htwin := h.twin (N := x.Notes base.tree) hp
  have henv : env.Twin (h.pairing (x.Notes base.tree)) base.tree.size env' :=
    he.twin h fun i hi => .inl hi
  cases x with
  | function d id =>
    obtain ⟨f, inner, r₁, body, r₂, f₂, hf, henter, hblock, hf₂, hkind, hnotices⟩ :=
      resolveFunction_ok ha
    obtain ⟨f', inner', r₁', body', r₂', f₂', hf', henter', hblock', hf₂', hkind', hnotices'⟩ :=
      resolveFunction_ok hr
    have hid : base.tree.Has id := hx.has
    have hparams : f'.params = f.params.map (Run.moved g base run) := by
      obtain ⟨k, hk, hkf⟩ := Option.bind_eq_some_iff.mp hf
      obtain ⟨k', hk', hkf'⟩ := Option.bind_eq_some_iff.mp hf'
      have hheading := h.heading id hid
      rw [hk, hk', Option.map_some, Option.map_some, Option.some.injEq] at hheading
      obtain ⟨f₀, hf₀, -, -, hparams⟩ := NodeKind.function?_of_heading g hheading hkf
      obtain rfl : f₀ = f' := Option.some.inj (hf₀.symm.trans hkf')
      rw [hparams]
      exact List.map_congr_left fun p hmem => (Run.moved_of_has (hp id f hf p hmem)).symm
    have hown : (Part.function d id).params base.tree = f.params := by
      simp [Part.params, hf]
    rw [hown] at hfresh
    have hsim := enterBody_sim henv htwin d.name d.returnType false f.params
      (fun p hmem => .inr ⟨hp id f hf p hmem, .inr (hown ▸ hmem)⟩) d.body
    rw [hparams] at henter' hnotices'
    obtain ⟨htwin₁, -, hinner⟩ := hsim
    rw [henter] at htwin₁ hinner
    rw [show enterBody env' d.name d.returnType false
      (f.params.map (h.pairing _).map) d.body run = _ from henter'] at htwin₁ hinner
    obtain ⟨htwin₂, -, rfl, hbody⟩ := resolveBlock_sim hinner htwin₁ .functionBody d.body _ _ _ _
      hblock hblock'
    refine .of_twin (.function { f₂ with body := some body })
      (.function { f₂' with body := some (Run.moved g base run body) }) _ htwin₂ hid hkind hkind'
      (Tree.uses_of_kind? (Tree.function?_eq_some.mp hf₂)).symm
      (Tree.uses_of_kind? (Tree.function?_eq_some.mp hf₂')).symm rfl ?_ hnotices ?_
    · intro i hi
      rw [List.mem_singleton.mp hi]
      exact hbody
    · rw [hnotices', he.warnUnused]
      refine congrArg (r₂'.notices ++ ·) (lateNotices_twin d env.warnUnused htwin₂ hbody.1
        (fun p hmem => hp id f hf p hmem) fun p hmem => ?_)
      change run.tree.uses (Run.moved g base run p) = [] ↔ base.tree.uses p = []
      rw [Run.moved_of_has (hp id f hf p hmem)]
      exact hfresh p hmem
  | state d id =>
    obtain ⟨handlers, r₁, s, hhandlers, hs, hkind, hnotices⟩ := resolveState_ok ha
    obtain ⟨handlers', r₁', s', hhandlers', hs', hkind', hnotices'⟩ := resolveState_ok hr
    obtain ⟨htwin₁, -, rfl, hall⟩ := resolveHandlers_sim henv htwin d.name [] d.handlers _ _ _ _
      hhandlers hhandlers'
    exact .of_twin (.state { s with handlers })
      (.state { s' with handlers := handlers.map (Run.moved g base run) }) [] htwin₁ hx.has hkind
      hkind' (Tree.uses_of_kind? hs).symm (Tree.uses_of_kind? hs').symm rfl
      hall (by rw [hnotices, List.append_nil])
      (by rw [hnotices', List.append_nil])

/-! ### Parts one after the other -/

/-- The tree holds what the part was filled with in `a`, with other numbers. -/
structure Part.CopiedTo (π : Nat → Nat) (g : Nat → Nat) (base : Run) (x : Part) (a : Run) (t : Tree) :
    Prop where
  inj : Function.Injective π
  later : ∀ i, base.tree.size ≤ i → base.tree.size ≤ π i
  filling : t.filling (g x.node) = (a.tree.filling x.node).map π
  kind : ∀ i k, base.tree.size ≤ i → a.tree.kind? i = some k → t.kind? (π i) = some (k.rename π)

theorem Part.Follows.copied {x : Part} (hf : x.Follows g base run a r) (h : Run.Abreast g base run) :
    x.CopiedTo (Run.moved g base run) g base a r.tree where
  inj := h.moved_injective
  later i hi := by
    rw [Run.moved_of_le hi]
    exact Nat.le_add_right_of_le h.size
  filling := hf.filling
  kind i k hi hk := by rw [hf.copies i hi, hk, Option.map_some]

/-- A copy stays as long as its nodes do. -/
theorem Part.CopiedTo.keep {x : Part} {π : Nat → Nat} {t t' : Tree} (h : x.CopiedTo π g base a t)
    (hfilling : t'.filling (g x.node) = t.filling (g x.node))
    (hkeep : ∀ j, base.tree.size ≤ j → t.Has j → t'.kind? j = t.kind? j) :
    x.CopiedTo π g base a t' where
  inj := h.inj
  later := h.later
  filling := hfilling.trans h.filling
  kind i k hi hk := by
    have hkind := h.kind i k hi hk
    rw [hkeep _ (h.later i hi) (Tree.has_of_kind? hkind), hkind]

/-- Resolving a declared part fills its node and no other. -/
theorem Part.resolve_gives {library : Catalog} {o : Surroundings} {x : Part}
    (hn : env.Names library o run.tree) (hx : x.Declared run.tree) :
    (x.resolve env).Gives run fun _ run' => run.tree.Fills [x.node] run'.tree := by
  cases x with
  | function d id => exact (resolveFunction_gives hn hx).mono fun _ _ h => h.1.grows
  | state d id => exact (resolveState_gives hn hx).mono fun _ _ h => h.1.grows

theorem Part.Declared.fills {t t' : Tree} {ids : List NodeId} {x : Part} (h : x.Declared t)
    (hg : t.Fills ids t') (hx : x.node ∉ ids) : x.Declared t' := by
  cases x with
  | function d id => exact Tree.HasFunction.fills h hg hx
  | state d id => exact Tree.HasState.fills h hg hx

theorem Tree.Fills.filling {t t' : Tree} {ids : List NodeId} {i : Nat} (h : t.Fills ids t')
    (hi : t.Has i) (hid : i ∉ ids) : t'.filling i = t.filling i := by
  obtain ⟨k, hk⟩ := Tree.exists_kind? hi
  obtain ⟨k', hk', ho⟩ := Tree.Grows.kind? h hk
  rw [Tree.filling, Tree.filling, hk, hk']
  have hsort := Tree.sort?_of_kind? hk
  cases k with
  | function | state =>
    exact Tree.Grows.filling h (by simp [hid, hsort, NodeKind.sort]) hk hk'
  | _ => cases k' <;> first | rfl | cases ho

/-- The part leaves the parameters of another part alone. -/
def Part.Apart (t : Tree) (x y : Part) : Prop :=
  x.node ≠ y.node ∧ ∀ p ∈ y.params t, ¬ x.Notes t p ∧ p ≠ x.node

/-- What comes of parts that are resolved one after the other. `alone` is what
comes of each right behind the declarations. -/
structure Part.AllFollow (g : Nat → Nat) (base run : Run) (xs : List Part) (alone : Part → Run)
    (r : Run) : Prop where
  grows : ∃ ids, run.tree.Fills ids r.tree
  abreast : Run.Abreast g base r
  told : r.notices = run.notices ++ xs.flatMap fun x => (alone x).notices.drop base.notices.length
  uses : ∀ i, base.tree.Has i → (r.tree.uses (g i) = [] ↔ run.tree.uses (g i) = []
    ∧ ∀ x ∈ xs, (alone x).tree.uses i = base.tree.uses i)
  copied : ∀ x ∈ xs, ∃ π, x.CopiedTo π g base (alone x) r.tree
  kept : ∀ j, base.tree.size ≤ j → run.tree.Has j → r.tree.kind? j = run.tree.kind? j
  filling : ∀ j, run.tree.Has j → (∀ x ∈ xs, g x.node ≠ j) → r.tree.filling j = run.tree.filling j

theorem Part.renumber_node (x : Part) : (x.renumber g).node = g x.node := by
  cases x <;> rfl

/-- **Parts do not influence each other**: each says and makes what it does alone. -/
theorem Part.allFollow {library : Catalog} {o : Surroundings} {xs : List Part} {alone : Part → Run}
    (h : Run.Abreast g base run) (he : Env.Beside g base.tree.Shared base env env')
    (hp : base.tree.ParamsExist)
    (hn : env'.Names library o run.tree)
    (hxs : ∀ x ∈ xs, x.Declared base.tree ∧ x.resolve env base = .ok ((), alone x))
    (hdecl : ∀ x ∈ xs, (x.renumber g).Declared run.tree)
    (hfresh : ∀ x ∈ xs, ∀ p ∈ x.params base.tree,
      run.tree.uses (g p) = [] ↔ base.tree.uses p = [])
    (hapart : xs.Pairwise (Part.Apart base.tree))
    (hrun : (xs.forM fun x => (x.renumber g).resolve env') run = .ok ((), r)) :
    Part.AllFollow g base run xs alone r := by
  induction xs generalizing run with
  | nil =>
    obtain ⟨-, rfl⟩ := CheckBody.pure_ok hrun
    exact ⟨⟨[], .refl _ _⟩, h, by simp, by simp, by simp, fun _ _ _ => rfl, fun _ _ _ => rfl⟩
  | cons x rest ih =>
    obtain ⟨hx, hrest⟩ := List.pairwise_cons.mp hapart
    obtain ⟨run₁, hone, hrun⟩ := CheckBody.forM_cons_ok hrun
    obtain ⟨hdeclared, halone⟩ := hxs x List.mem_cons_self
    have hfollow := Part.follows h he hp hdeclared (hfresh x List.mem_cons_self) halone hone
    -- the step fills one node of the run
    have hfills : run.tree.Fills [g x.node] run₁.tree := by
      obtain ⟨_, run₂, hok, hfills⟩ := Part.resolve_gives hn (hdecl x List.mem_cons_self)
      obtain rfl : run₂ = run₁ := congrArg Prod.snd (Except.ok.inj (hok.symm.trans hone))
      rwa [Part.renumber_node] at hfills
    have hother : ∀ y ∈ rest, g y.node ∉ [g x.node] := fun y hy heq =>
      (hx y hy).1 (h.inj (List.mem_singleton.mp heq)).symm
    have hkept : ∀ j, base.tree.size ≤ j → run.tree.Has j →
        run₁.tree.kind? j = run.tree.kind? j := fun j hj hhas =>
      hfollow.keeps j hhas fun i hi _ heq => by
        have := h.stays i hi
        omega
    have hall := ih (h.grows hfills) (hn.grows hfills) (fun y hy => hxs y (List.mem_cons_of_mem _ hy))
      (fun y hy => (hdecl y (List.mem_cons_of_mem _ hy)).fills hfills
        (by rw [Part.renumber_node]; exact hother y hy))
      (fun y hy p hmem => ?_) hrest hrun
    · obtain ⟨ids, hgrows⟩ := hall.grows
      have hhas : ∀ {i}, base.tree.Has i → run₁.tree.Has (g i) := fun hi =>
        Tree.Grows.has hfills (h.has hi)
      constructor
      case grows => exact ⟨_, Tree.Fills.trans hfills hgrows⟩
      case abreast => exact hall.abreast
      case told =>
        obtain ⟨ns, hns, hns'⟩ := hfollow.told
        rw [hall.told, hns', List.flatMap_cons, hns, List.drop_left, List.append_assoc]
      case uses =>
        intro i hi
        obtain ⟨added, hadd, hadd'⟩ := hfollow.uses i hi
        have hself : base.tree.uses i ++ added = base.tree.uses i ↔ added = [] := by simp
        rw [hall.uses i hi, hadd', List.append_eq_nil_iff, List.map_eq_nil_iff, List.forall_mem_cons,
          hadd, hself, and_assoc]
      case copied =>
        intro y hy
        rcases List.mem_cons.mp hy with rfl | hy
        · refine ⟨_, (hfollow.copied h).keep (hall.filling _ (hhas hdeclared.has) fun z hz heq => ?_)
            hall.kept⟩
          exact (hx z hz).1 (h.inj heq).symm
        · exact hall.copied y hy
      case kept =>
        intro j hj hhasj
        rw [hall.kept j hj (Tree.Grows.has hfills hhasj), hkept j hj hhasj]
      case filling =>
        intro j hj hnot
        rw [hall.filling j (Tree.Grows.has hfills hj) fun z hz => hnot z (List.mem_cons_of_mem _ hz),
          Tree.Fills.filling hfills hj fun hmem =>
            hnot x List.mem_cons_self (List.mem_singleton.mp hmem).symm]
    · -- nothing was noted on the parameters of the other functions
      obtain ⟨-, hleft⟩ := hx y hy
      have hbase := hp.has hmem
      rw [← hfresh y (List.mem_cons_of_mem _ hy) p hmem, Tree.uses, hfollow.keeps (g p) (h.has hbase),
        ← Tree.uses]
      rintro i hi (hnotes | rfl) heq
      · exact (hleft p hmem).1 (h.inj heq ▸ hnotes)
      · exact (hleft p hmem).2 (h.inj heq).symm

end Lsl
