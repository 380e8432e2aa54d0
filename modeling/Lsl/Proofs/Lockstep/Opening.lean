/- # Declarations with other numbers

A declaration makes the same block of nodes wherever it is made, and says the
same. So two scripts that declare the same in different orders have the same
declarations with other numbers, the same names for them, and the same to say.

Key definitions: `Decl.alone`, `Run.Declares`, `Run.DeclaresAll`,
`Run.DeclaresScript`.
Key theorems: `declareScript_declares`.
-/
import Lsl.Proofs.Lockstep.Blocks
import Lsl.Proofs.Lockstep.Parts

namespace Lsl

variable {library : Catalog} {o : Surroundings} {run run' run'' : Run} {xs ys : List Decl}
  {ns ms : List Notice}

/-! ### A declaration by itself -/

namespace Decl

def name : Decl → String
  | function d => d.name
  | state d _ => d.name

/-- The node of the declaration itself is the last one of its block. -/
def node (x : Decl) (start : Nat) : Nat := start + (x.width - 1)

/-- What comes of a declaration when nothing was declared before. -/
def alone (library : Catalog) : Decl → Run
  | function d => (declareFunction library [] d {}).2
  | state d true => (declareState d true {}).2
  | state d false => (declareNamedState [] d {}).2

end Decl

theorem declareFunction_takes (known : Names) (d : FunctionDecl) (hroot : run.tree.Rooted) :
    run.Takes library o (Decl.function d).width [] (declareFunction library known d run).2
      ∧ (declareFunction library known d run).1.2 = (Decl.function d).node run.tree.size := by
  have hall : run.Takes library o _ _ _ ∧ _ ∧ _ ∧ _ := declareFunctions_takes [d] known run hroot
  rw [declareFunctions_cons] at hall
  obtain ⟨htakes, hids, -⟩ := hall
  exact ⟨htakes, List.cons.inj hids |>.1⟩

theorem declareNamedState_takes (known : Names) (d : StateDecl) (hroot : run.tree.Rooted) :
    run.Takes library o 1 [] (declareNamedState known d run).2
      ∧ (declareNamedState known d run).1.2 = run.tree.size := by
  have hall : run.Takes library o _ _ _ ∧ _ ∧ _ := declareStates_takes [d] known run hroot
  rw [declareStates_cons] at hall
  obtain ⟨htakes, hids, -⟩ := hall
  exact ⟨htakes, List.cons.inj hids |>.1⟩

theorem Run.rooted_empty : ({} : Run).tree.Rooted := fun c q hq => by
  simp [Tree.parent?, Tree.node?] at hq

theorem Decl.size_alone (library : Catalog) (x : Decl) : (x.alone library).tree.size = x.width := by
  have hempty : ({} : Run).tree.size = 0 := rfl
  match x with
  | function d =>
    have h : ({} : Run).Takes library {} _ [] _ ∧ _ := declareFunction_takes [] d Run.rooted_empty
    replace h := h.1.size
    rwa [hempty, Nat.zero_add] at h
  | state d true =>
    have h : ({} : Run).Takes library {} 1 [] _ ∧ _ := declareState_takes d true {} Run.rooted_empty
    exact h.1.size
  | state d false =>
    have h : ({} : Run).Takes library {} 1 [] _ ∧ _ := declareNamedState_takes [] d Run.rooted_empty
    exact h.1.size

/-! ### Blocks of a tree -/

/-- From the number `start` on the tree is a copy of `a`. -/
structure Tree.Copy (t : Tree) (start : Nat) (a : Tree) : Prop where
  kind : ∀ i, a.Has i → t.kind? (start + i) = (a.kind? i).map (·.rename (start + ·))
  span : ∀ i, a.Has i → t.span (start + i) = a.span i

/-- The declarations were made one behind the other. -/
structure Run.Declares (library : Catalog) (run : Run) (xs : List Decl) (ns : List Notice) (run' : Run) :
    Prop where
  grows : run.tree.Extends run'.tree
  size : run'.tree.size = run.tree.size + Decl.total xs
  kept : ∀ i, run.tree.Has i → run'.tree.kind? i = run.tree.kind? i
  blocks : ∀ x ∈ Decl.placed run.tree.size xs, run'.tree.Copy x.2 (x.1.alone library).tree
  notices : run'.notices = run.notices ++ ns
  scopes : run'.scopes = run.scopes
  labels : run'.labels = run.labels
  lastScope : run'.lastScope = run.lastScope

namespace Run.Declares

theorem refl (run : Run) : run.Declares library [] [] run :=
  ⟨.refl _ _, rfl, fun _ _ => rfl, by simp [Decl.placed], (List.append_nil _).symm, rfl, rfl, rfl⟩

theorem trans (h : run.Declares library xs ns run') (g : run'.Declares library ys ms run'') :
    run.Declares library (xs ++ ys) (ns ++ ms) run'' where
  grows := h.grows.trans g.grows
  size := by rw [g.size, h.size, Decl.total_append, Nat.add_assoc]
  kept i hi := (g.kept i (Tree.Grows.has h.grows hi)).trans (h.kept i hi)
  blocks x hx := by
    rw [Decl.placed_append] at hx
    rcases List.mem_append.mp hx with hx | hx
    · have hbound := (Decl.placed_bounds _ xs x hx).2
      have hhas : ∀ i, (x.1.alone library).tree.Has i → run'.tree.Has (x.2 + i) := by
        intro i hi
        rw [Tree.Has, Decl.size_alone] at hi
        rw [Tree.Has, h.size]
        omega
      exact ⟨fun i hi => (g.kept _ (hhas i hi)).trans ((h.blocks x hx).kind i hi),
        fun i hi => (Tree.Grows.span g.grows (hhas i hi)).trans ((h.blocks x hx).span i hi)⟩
    · exact g.blocks x (h.size ▸ hx)
  notices := by rw [g.notices, h.notices, List.append_assoc]
  scopes := g.scopes.trans h.scopes
  labels := g.labels.trans h.labels
  lastScope := g.lastScope.trans h.lastScope

end Run.Declares

/-- Any run is abreast of one that has not begun. -/
theorem Run.abreast_empty (run : Run) : Run.Abreast id {} run where
  inj := Function.injective_id
  stays _ hi := hi
  size := Nat.zero_le _
  heading i hi := absurd hi (Nat.not_lt_zero i)
  span i hi := absurd hi (Nat.not_lt_zero i)

theorem Run.twin_empty (run : Run) {N : Nat → Prop} :
    Run.Twin (run.abreast_empty.pairing N) false {} run :=
  run.abreast_empty.twin fun i f hf => by simp [Tree.function?, Tree.kind?, Tree.node?] at hf

/-- A declaration that goes along with the same one made alone. -/
theorem Run.Declares.of_sim {α : Type} {x : Decl} {m m' : Check α} {N : Nat → Prop}
    {V : Nat → α → α → Prop}
    (hsim : Check.Sim (run.abreast_empty.pairing N) false {} run m m' V)
    (hx : x.alone library = (m {}).2) (htakes : run.Takes library o x.width [] (m' run).2) :
    run.Declares library [x] (x.alone library).notices (m' run).2 := by
  have hmoved : ∀ i, Run.moved id {} run i = run.tree.size + i := fun i =>
    Run.moved_of_le (Nat.zero_le i)
  have htwin := hsim.twin
  rw [← hx] at htwin
  constructor
  case grows => exact htakes.grows
  case size => exact htakes.size
  case kept =>
    intro i hi
    refine htwin.tree.rest' i hi (fun j _ he => ?_) fun j hj => absurd hj.1 (Nat.not_lt_zero j)
    change Run.moved id {} run j = i at he
    rw [hmoved] at he
    have : i < run.tree.size := hi
    omega
  case blocks =>
    intro y hy
    rw [Decl.placed, Decl.placed, List.mem_singleton] at hy
    subst hy
    refine ⟨fun i _ => ?_, fun i _ => ?_⟩
    · have hkind := htwin.tree.kind? (Nat.zero_le i)
      change (m' run).2.tree.kind? (Run.moved id {} run i)
        = ((x.alone library).tree.kind? i).map (·.rename (Run.moved id {} run)) at hkind
      rwa [hmoved, funext hmoved] at hkind
    · have hspan := htwin.tree.span (Nat.zero_le i)
      change (m' run).2.tree.span (Run.moved id {} run i) = _ at hspan
      rwa [hmoved] at hspan
  case notices =>
    obtain ⟨ns, hns, hns'⟩ := htwin.told
    change _ = [] ++ ns at hns
    rw [hns, List.nil_append]
    exact hns'
  case scopes => exact htakes.scopes
  case labels => exact htakes.labels
  case lastScope => exact htakes.lastScope

/-! ### Declaring one after the other -/

/-- Declarations by name. -/
def Decl.named (xs : List (Decl × Nat)) : Names := xs.map fun x => (x.1.name, x.1.node x.2)

/-- Declarations are made, and their names are taken up unless they are refused. -/
structure Run.DeclaresAll (library : Catalog) (refused : String → Bool) (known : Names) (run : Run)
    (xs : List Decl) (r : (Names × List NodeId) × Run) : Prop where
  declares : run.Declares library xs (xs.flatMap fun x => (x.alone library).notices) r.2
  ids : r.1.2 = (Decl.placed run.tree.size xs).map fun x => x.1.node x.2
  names : ∀ name, r.1.1.lookup name = (known.lookup name).or
    (if refused name then none else (Decl.named (Decl.placed run.tree.size xs)).lookup name)

/-- Declaring one after the other, if one declaration does as it should. -/
theorem Run.DeclaresAll.of_steps {δ : Type} (decl : δ → Decl) {refused : String → Bool}
    (step : Names → δ → Check (Names × NodeId)) {all : Names → List δ → Check (Names × List NodeId)}
    (hnil : ∀ known, all known [] = pure (known, []))
    (hcons : ∀ known d rest, all known (d :: rest) = do
      let (known, id) ← step known d
      let (known, ids) ← all known rest
      return (known, id :: ids))
    (hstep : ∀ known d run, run.tree.Rooted →
      (refused (decl d).name = false → known.lookup (decl d).name = none) →
      run.Declares library [decl d] ((decl d).alone library).notices (step known d run).2
        ∧ (step known d run).1.2 = (decl d).node run.tree.size
        ∧ ∀ name, (step known d run).1.1.lookup name = (known.lookup name).or
          (if refused name then none
            else List.lookup name [((decl d).name, (decl d).node run.tree.size)]))
    {ds : List δ} (hdistinct : (ds.map fun d => (decl d).name).Nodup) {known : Names} {run : Run}
    (hroot : run.tree.Rooted)
    (hfree : ∀ d ∈ ds, refused (decl d).name = false → known.lookup (decl d).name = none) :
    run.DeclaresAll library refused known (ds.map decl) (all known ds run) := by
  induction ds generalizing known run with
  | nil =>
    rw [hnil]
    exact ⟨.refl run, rfl, fun name => by simp [Check.pure_run, Decl.named, Decl.placed]⟩
  | cons d rest ih =>
    obtain ⟨hfresh, hrest⟩ := List.nodup_cons.mp hdistinct
    obtain ⟨hone, hid, hnames⟩ := hstep known d run hroot (hfree d List.mem_cons_self)
    obtain ⟨⟨⟨known₁, id⟩, run₁⟩, hr⟩ : ∃ r, step known d run = r := ⟨_, rfl⟩
    rw [hr] at hone hid hnames
    have hfree₁ : ∀ e ∈ rest, refused (decl e).name = false → known₁.lookup (decl e).name = none := by
      intro e he hok
      have hne : (decl e).name ≠ (decl d).name := fun heq =>
        hfresh (List.mem_map.mpr ⟨e, he, heq⟩)
      rw [hnames, hfree e (List.mem_cons_of_mem _ he) hok, lookup_singleton_of_ne hne, ite_self]
      rfl
    have hall := ih hrest (hone.grows.rooted hroot) hfree₁
    have hrun : all known (d :: rest) run
        = (((all known₁ rest run₁).1.1, id :: (all known₁ rest run₁).1.2),
            (all known₁ rest run₁).2) := by
      rw [hcons, Check.bind_run, hr]
      rfl
    have hsize : run₁.tree.size = run.tree.size + (decl d).width := hone.size
    rw [hrun, List.map_cons]
    refine ⟨?_, ?_, fun name => ?_⟩
    · rw [List.flatMap_cons]
      exact hone.trans hall.declares
    · rw [Decl.placed, List.map_cons, ← hsize, ← hall.ids]
      exact congrArg (· :: _) hid
    · rw [hall.names, hnames, Option.or_assoc, ← accepted_append, Decl.placed, ← hsize]
      rfl

theorem nameIn_lookup (refused : String → Bool) (known : Names) (name : String) (id : NodeId)
    (other : String) :
    (if refused name then known else Names.add known name id).lookup other
      = (known.lookup other).or (if refused other then none else List.lookup other [(name, id)]) := by
  rw [accepted_single]
  split
  · rw [Option.or_none]
  · rw [Names.lookup_add]
    congr 1
    rw [List.lookup_cons]
    cases other == name <;> rfl

theorem declareFunctions_declares {ds : List FunctionDecl} (hdistinct : (ds.map (·.name)).Nodup)
    (hroot : run.tree.Rooted) :
    run.DeclaresAll library library.hasFunction [] (ds.map .function)
      (declareFunctions library [] ds run) := by
  refine .of_steps .function (declareFunction library) (fun _ => rfl)
    (declareFunctions_cons library) (fun known d run hroot hfree => ?_) hdistinct hroot fun _ _ _ => rfl
  have hsim := declareFunction_sim (run.twin_empty (N := fun _ => False)) library [] known d
    (fun hc => (hfree hc).trans rfl) (by simp)
  obtain ⟨htakes, hid⟩ : run.Takes library {} _ _ _ ∧ _ :=
    declareFunction_takes known d hroot
  refine ⟨.of_sim hsim rfl htakes, hid, fun name => ?_⟩
  rw [hsim.value.2.2, hid]
  exact nameIn_lookup _ known d.name _ name

theorem declareStates_declares {ds : List StateDecl} (hdistinct : (ds.map (·.name)).Nodup)
    {known : Names} (hknown : ∀ name, name ≠ defaultStateName → known.lookup name = none)
    (hroot : run.tree.Rooted) :
    run.DeclaresAll library (· == defaultStateName) known (ds.map (.state · false))
      (declareStates known ds run) := by
  refine .of_steps (.state · false) declareNamedState (fun _ => rfl) declareStates_cons
    (fun known d run hroot hfree => ?_) hdistinct hroot fun d _ hne => hknown _ (by simpa using hne)
  have hsim := declareNamedState_sim (run.twin_empty (N := fun _ => False)) [] known d
    (fun hc => (hfree (beq_false_of_ne hc)).trans rfl) (by simp)
  obtain ⟨htakes, hid⟩ : run.Takes library {} _ _ _ ∧ _ :=
    declareNamedState_takes known d hroot
  refine ⟨.of_sim hsim rfl htakes, hid, fun name => ?_⟩
  rw [hsim.value.2.2, hid, StateDecl.nameIn]
  have hlookup := nameIn_lookup (· == defaultStateName) known d.name run.tree.size name
  simp only [beq_iff_eq] at hlookup ⊢
  exact hlookup

/-! ### All declarations of a script -/

namespace Decl

def isFunction : Decl → Bool
  | function _ => true
  | state .. => false

def isDefaultState : Decl → Bool
  | state _ isDefault => isDefault
  | function _ => false

def isNamedState : Decl → Bool
  | state _ isDefault => !isDefault
  | function _ => false

theorem fst_mem_of_placed {start : Nat} {xs : List Decl} {x : Decl × Nat}
    (hx : x ∈ placed start xs) : x.1 ∈ xs := by
  induction xs generalizing start with
  | nil => cases hx
  | cons y rest ih =>
    rcases List.mem_cons.mp hx with rfl | hx
    · exact List.mem_cons_self
    · exact List.mem_cons_of_mem _ (ih hx)

theorem filter_placed_self {p : Decl → Bool} {start : Nat} {xs : List Decl}
    (h : ∀ x ∈ xs, p x = true) : (placed start xs).filter (p ·.1) = placed start xs :=
  List.filter_eq_self.mpr fun x hx => h x.1 (fst_mem_of_placed hx)

theorem filter_placed_nil {p : Decl → Bool} {start : Nat} {xs : List Decl}
    (h : ∀ x ∈ xs, p x = false) : (placed start xs).filter (p ·.1) = [] :=
  List.filter_eq_nil_iff.mpr fun x hx => by simp [h x.1 (fst_mem_of_placed hx)]

/-- The nodes of declarations. -/
def nodes (xs : List (Decl × Nat)) : List NodeId := xs.map fun x => x.1.node x.2

end Decl

namespace Script

/-- What a script declares ahead of its globals, in this order. -/
def decls (script : Script) : List Decl :=
  script.functions.map .function
    ++ (script.defaultState.toList.map (.state · true) ++ script.states.map (.state · false))

def placedDecls (script : Script) : List (Decl × Nat) := Decl.placed 0 script.decls

theorem placedDecls_functions (script : Script) :
    script.placedDecls.filter (·.1.isFunction) = Decl.placed 0 (script.functions.map .function) := by
  rw [placedDecls, decls, Decl.placed_append, Decl.placed_append, List.filter_append,
    List.filter_append, Decl.filter_placed_self, Decl.filter_placed_nil, Decl.filter_placed_nil,
    List.append_nil, List.append_nil] <;> simp [Decl.isFunction]

theorem placedDecls_default (script : Script) :
    script.placedDecls.filter (·.1.isDefaultState)
      = Decl.placed (Decl.total (script.functions.map .function))
        (script.defaultState.toList.map (.state · true)) := by
  rw [placedDecls, decls, Decl.placed_append, Decl.placed_append, List.filter_append,
    List.filter_append, Decl.filter_placed_nil, Decl.filter_placed_self, Decl.filter_placed_nil,
    List.append_nil, List.nil_append, Nat.zero_add] <;> simp [Decl.isDefaultState]

theorem placedDecls_named (script : Script) :
    script.placedDecls.filter (·.1.isNamedState)
      = Decl.placed (Decl.total (script.functions.map .function)
          + Decl.total (script.defaultState.toList.map (.state · true)))
        (script.states.map (.state · false)) := by
  rw [placedDecls, decls, Decl.placed_append, Decl.placed_append, List.filter_append,
    List.filter_append, Decl.filter_placed_nil, Decl.filter_placed_nil, Decl.filter_placed_self,
    List.nil_append, List.nil_append, Nat.zero_add] <;> simp [Decl.isNamedState]

/-- What there is to say about the declarations. -/
def declNotices (library : Catalog) (script : Script) : List Notice :=
  script.decls.flatMap (fun x => (x.alone library).notices)
    ++ if script.defaultState.isNone then [.fault .missingDefaultState script.span] else []

end Script

theorem declareDefaultState_declares (script : Script) (hroot : run.tree.Rooted) :
    let r := declareDefaultState script run
    let decls := script.defaultState.toList.map (Decl.state · true)
    run.Declares library decls
        (decls.flatMap (fun x => (x.alone library).notices)
          ++ if script.defaultState.isNone then [.fault .missingDefaultState script.span] else []) r.2
      ∧ r.1.2.toList = Decl.nodes (Decl.placed run.tree.size decls)
      ∧ r.1.1 = (Decl.nodes (Decl.placed run.tree.size decls)).map fun id => (defaultStateName, id) := by
  unfold declareDefaultState
  cases script.defaultState with
  | none =>
    exact ⟨⟨.refl _ _, rfl, fun _ _ => rfl, by simp [Decl.placed], rfl, rfl, rfl, rfl⟩, rfl, rfl⟩
  | some d =>
    obtain ⟨htakes, hid, -⟩ : run.Takes library {} _ _ _ ∧ _ ∧ _ := declareState_takes d true run hroot
    have hone : run.Declares library [.state d true] _ _ :=
      .of_sim (declareState_sim (run.twin_empty (N := fun _ => False)) d true) rfl htakes
    refine ⟨?_, congrArg (fun id => [id]) hid, congrArg (fun id => [(defaultStateName, id)]) hid⟩
    simp only [Option.toList_some, List.map_cons, List.map_nil, List.flatMap_cons, List.flatMap_nil,
      List.append_nil, Option.isNone_some, Bool.false_eq_true, if_false]
    exact hone

/-- The declarations of a script, without the globals. -/
def declareScript (library : Catalog) (warnUnused : Bool) (script : Script) :
    Check (Env × ScriptNode) := do
  let (functionNames, functions) ← declareFunctions library [] script.functions
  let (stateNames, defaultState) ← declareDefaultState script
  let (stateNames, states) ← declareStates stateNames script.states
  return ({ library, warnUnused, functions := functionNames, states := stateNames },
    { functions, defaultState, states })

theorem openScript_eq (library : Catalog) (warnUnused : Bool) (script : Script) :
    openScript library warnUnused script = do
      let (env, n) ← declareScript library warnUnused script
      let (globals, ids) ← resolveGlobals env script.globals
      return ({ env with globals }, { n with globals := ids }) := rfl

theorem openScript_run {warnUnused : Bool} {script : Script} {env : Env} {n : ScriptNode}
    {base : Run} (h : openScript library warnUnused script {} = ((env, n), base)) :
    ∃ outer m run globals ids, declareScript library warnUnused script {} = ((outer, m), run)
      ∧ resolveGlobals outer script.globals run = ((globals, ids), base)
      ∧ env = { outer with globals } ∧ n = { m with globals := ids } := by
  rw [openScript_eq, Check.bind_run] at h
  obtain ⟨⟨⟨outer, m⟩, run⟩, hr⟩ : ∃ r, declareScript library warnUnused script {} = r := ⟨_, rfl⟩
  simp only [hr, Check.bind_run] at h
  obtain ⟨⟨⟨globals, ids⟩, run₁⟩, hr₁⟩ : ∃ r, resolveGlobals outer script.globals run = r := ⟨_, rfl⟩
  simp only [hr₁] at h
  obtain ⟨hvalue, rfl⟩ := Prod.mk.inj h
  obtain ⟨rfl, rfl⟩ := Prod.mk.inj hvalue
  exact ⟨outer, m, run, globals, ids, hr, hr₁, rfl, rfl⟩

/-- The nodes of the script are those of its declarations. -/
structure ScriptNode.Numbers (script : Script) (n : ScriptNode) : Prop where
  functions : n.functions = Decl.nodes (script.placedDecls.filter (·.1.isFunction))
  defaultState : n.defaultState.toList = Decl.nodes (script.placedDecls.filter (·.1.isDefaultState))
  states : n.states = Decl.nodes (script.placedDecls.filter (·.1.isNamedState))

/-- What a script has declared ahead of its globals. -/
structure Run.DeclaresScript (library : Catalog) (warnUnused : Bool) (script : Script) (env : Env)
    (n : ScriptNode) (run : Run) : Prop where
  declares : ∃ ns, ns.Perm (script.declNotices library)
    ∧ ({} : Run).Declares library script.decls ns run
  numbers : n.Numbers script
  functionNames : ∀ name, env.functions.lookup name = if library.hasFunction name then none
    else (Decl.named (script.placedDecls.filter (·.1.isFunction))).lookup name
  stateNames : ∀ name, env.states.lookup name
    = (((Decl.nodes (script.placedDecls.filter (·.1.isDefaultState))).map fun id =>
        (defaultStateName, id)).lookup name).or
      (if name == defaultStateName then none
        else (Decl.named (script.placedDecls.filter (·.1.isNamedState))).lookup name)
  env_eq : env = { library, warnUnused, functions := env.functions, states := env.states }

/-- **Functions and states with distinct names are declared, each as if it were alone.** -/
theorem declareScript_declares {warnUnused : Bool} {script : Script} {env : Env} {n : ScriptNode}
    (hf : (script.functions.map (·.name)).Nodup) (hs : (script.states.map (·.name)).Nodup)
    (h : declareScript library warnUnused script {} = ((env, n), run)) :
    run.DeclaresScript library warnUnused script env n := by
  unfold declareScript at h
  have hfun : Run.DeclaresAll library _ _ ({} : Run) _ _ :=
    declareFunctions_declares hf Run.rooted_empty
  rw [Check.bind_run] at h
  obtain ⟨⟨⟨functionNames, functions⟩, run₁⟩, hr₁⟩ :
    ∃ r, declareFunctions library [] script.functions {} = r := ⟨_, rfl⟩
  rw [hr₁] at hfun
  simp only [hr₁] at h
  have hroot₁ : run₁.tree.Rooted := hfun.declares.grows.rooted Run.rooted_empty
  have hsize₁ : run₁.tree.size = Decl.total (script.functions.map .function) :=
    hfun.declares.size.trans (Nat.zero_add _)
  obtain ⟨hdef, hdefId, hdefNames⟩ : run₁.Declares library _ _ _ ∧ _ ∧ _ :=
    declareDefaultState_declares script hroot₁
  rw [Check.bind_run] at h
  obtain ⟨⟨⟨stateNames, defaultState⟩, run₂⟩, hr₂⟩ : ∃ r, declareDefaultState script run₁ = r :=
    ⟨_, rfl⟩
  rw [hr₂] at hdef hdefId hdefNames
  simp only [hr₂] at h
  have hsize₂ : run₂.tree.size = Decl.total (script.functions.map .function)
      + Decl.total (script.defaultState.toList.map (.state · true)) := by
    rw [hdef.size, hsize₁]
  have hknown : ∀ name, name ≠ defaultStateName → stateNames.lookup name = none := by
    intro name hne
    rw [show stateNames = _ from hdefNames, List.lookup_eq_none_iff]
    simp [hne]
  have hst : Run.DeclaresAll library _ _ _ _ _ :=
    declareStates_declares hs hknown (hdef.grows.rooted hroot₁)
  rw [Check.bind_run] at h
  obtain ⟨⟨⟨stateNames', states⟩, run₃⟩, hr₃⟩ :
    ∃ r, declareStates stateNames script.states run₂ = r := ⟨_, rfl⟩
  rw [hr₃] at hst
  simp only [hr₃] at h
  obtain ⟨hvalue, rfl⟩ := Prod.mk.inj h
  obtain ⟨rfl, rfl⟩ := Prod.mk.inj hvalue
  constructor
  case declares =>
    refine ⟨_, ?_, hfun.declares.trans (hdef.trans hst.declares)⟩
    rw [Script.declNotices, Script.decls, List.flatMap_append, List.flatMap_append, List.append_assoc,
      List.append_assoc, List.append_assoc]
    exact .append_left _ (.append_left _ List.perm_append_comm)
  case numbers =>
    constructor
    case functions =>
      rw [Script.placedDecls_functions]
      exact hfun.ids
    case defaultState =>
      rw [Script.placedDecls_default, ← hsize₁]
      exact hdefId
    case states =>
      rw [Script.placedDecls_named, ← hsize₂]
      exact hst.ids
  case functionNames =>
    intro name
    rw [Script.placedDecls_functions]
    exact (hfun.names name).trans (Option.none_or ..)
  case stateNames =>
    intro name
    rw [Script.placedDecls_default, Script.placedDecls_named, ← hsize₂, ← hsize₁,
      show Decl.nodes _ = _ from hdefId.symm]
    rw [← hdefId] at hdefNames
    rw [← show stateNames = _ from hdefNames]
    exact hst.names name
  case env_eq => rfl

end Lsl
