/- # Runs side by side

Two runs are at the same place of a script and of the script with mistakes in it: the
same names are known for what belongs together, the same scopes are open and the same
labels are ahead. A name then stands for the same on both sides, and the name `n`,
which nothing in the script has, stands for nothing.

Key definitions: `Run.faults`, `Run.Linked`, `Env.Linked`, `Binding.Linked`.
Key theorems: `Run.Linked.spares`, `bindName_linked`, `bindName_eq_none`.
-/
import Lsl.Proofs.Mistakes.Spares
import Lsl.Proofs.Mistakes.Upholds

namespace Lsl

variable {n : String} {L M : Links} {run run' r r' : Run} {ids ids' : List NodeId} {env env' : Env}

/-! ### What is wrong -/

def Notice.fault? : Notice → Option (Fault × Span)
  | .fault kind span => some (kind, span)
  | .warning .. => none

namespace Run

/-- The errors reported so far. -/
def faults (run : Run) : List (Fault × Span) := run.notices.filterMap Notice.fault?

theorem faults_say (run : Run) (t : Tree) (notices : List Notice) :
    Run.faults { run with tree := t, notices := run.notices ++ notices }
      = run.faults ++ notices.filterMap Notice.fault? :=
  List.filterMap_append

theorem filterMap_faults (faults : List (Fault × Span)) :
    (faults.map fun x => Notice.fault x.1 x.2).filterMap Notice.fault? = faults := by
  rw [List.filterMap_map]
  exact List.filterMap_some

/-- Where nothing is wrong, nothing more than warnings was said. -/
theorem Spotless.said (h : Run.Spotless r) (run : Run) {faults : List (Fault × Span)}
    (hr : r.notices = run.notices ++ faults.map fun x => .fault x.1 x.2) : faults = [] := by
  cases faults with
  | nil => rfl
  | cons x rest =>
    refine absurd ⟨.fault x.1 x.2, ?_, rfl⟩ h.right
    rw [hr]
    exact List.mem_append_right _ List.mem_cons_self

end Run

/-! ### Runs -/

/-- Open scopes with the same numbers and local variables. -/
def ScopeStack.Linked (P : NodeId → NodeId → Prop) (s s' : ScopeStack) : Prop :=
  List.Forall₂ (fun f f' => f'.scopeId = f.scopeId ∧ Names.Linked P f.locals f'.locals) s.frames
    s'.frames

theorem ScopeStack.Linked.mono {P Q : NodeId → NodeId → Prop} {s s' : ScopeStack}
    (hPQ : ∀ i j, P i j → Q i j) (h : s.Linked P s') : s.Linked Q s' :=
  List.Forall₂.imp (fun _ _ hf => ⟨hf.1, hf.2.mono hPQ⟩) h

/-- Two runs at the same place, with no local variable called `n`. -/
structure Run.Linked (n : String) (L : Links) (run run' : Run) : Prop where
  tree : run.tree.Linked n L run'.tree
  scopes : run.scopes.Linked L.vars run'.scopes
  fresh : run.scopes.lookup? n = none
  labels : List.Forall₂ L.nodes run.labels run'.labels
  lastScope : run'.lastScope = run.lastScope

namespace Run.Linked

/-- What is said does not matter. -/
theorem say (h : run.Linked n L run') (notices notices' : List Notice) :
    Run.Linked n L { run with notices } { run' with notices := notices' } := { h with }

/-- Both runs go on, and leave what is linked alone. -/
theorem spares (h : run.Linked n L run') (hs : run.Spares r ids) (hs' : run'.Spares r' ids') :
    r.Linked n L r' where
  tree := h.tree.keeps hs.tree hs'.tree
  scopes := by rw [hs.scopes, hs'.scopes]; exact h.scopes
  fresh := by rw [hs.scopes]; exact h.fresh
  labels := by rw [hs.labels, hs'.labels]; exact h.labels
  lastScope := by rw [hs.lastScope, hs'.lastScope]; exact h.lastScope

/-- New nodes that lie in no other belong together from now on. -/
theorem addNode (h : run.Linked n L run') {i j : NodeId} (hi : run.tree.Loose i)
    (hj : run'.tree.Loose j) (hfresh : ∀ b, ¬ L.nodes i b) (hfresh' : ∀ a, ¬ L.nodes a j) :
    run.Linked n (L.addNode i j) run' where
  tree := by
    obtain ⟨m, hm, hp, hgist, -⟩ := hi
    obtain ⟨m', hm', hp', hgist', -⟩ := hj
    refine h.tree.addNode hm hm' hp hp' hfresh hfresh' ?_
    rw [hgist, hgist']
    exact ⟨.none, rfl, .none⟩
  scopes := h.scopes
  fresh := h.fresh
  labels := h.labels.imp fun _ _ => .inl
  lastScope := h.lastScope

/-- Declarations with the same heading belong together from now on. -/
theorem addVar (h : run.Linked n L run') {i j : NodeId} {k k' : NodeKind}
    (hk : run.tree.kind? i = some k) (hk' : run'.tree.kind? j = some k')
    (hvar : k.SameVar n k') : run.Linked n (L.addVar i j) run' :=
  { h with
    tree := h.tree.addVar hk hk' hvar
    scopes := h.scopes.mono fun _ _ => .inl }

end Run.Linked

/-! ### Names -/

/-- The same body, whose parameters and labels belong together. -/
structure Body.Linked (n : String) (L : Links) (b b' : Body) : Prop where
  name : b'.name = b.name
  returnType : b'.returnType = b.returnType
  isEvent : b'.isEvent = b.isEvent
  params : Names.Linked L.vars b.params b'.params
  fresh : b.params.lookup n = none
  labels : Names.Linked L.nodes b.labels b'.labels

/-- Only a variadic parameter has the type `void`. -/
def LibraryFunction.FixedTyped (f : LibraryFunction) : Prop :=
  ∀ p ∈ f.params.take f.fixedCount, p.ty ≠ .void

instance LibraryFunction.decidableFixedTyped (f : LibraryFunction) : Decidable f.FixedTyped :=
  inferInstanceAs (Decidable (∀ p ∈ f.params.take f.fixedCount, p.ty ≠ .void))

/-- All functions of the library have only such parameters. -/
def Catalog.FixedTyped (library : Catalog) : Prop := ∀ f ∈ library.allFunctions, f.FixedTyped

instance Catalog.decidableFixedTyped (library : Catalog) : Decidable library.FixedTyped :=
  inferInstanceAs (Decidable (∀ f ∈ library.allFunctions, f.FixedTyped))

theorem Catalog.FixedTyped.overloads {library : Catalog} (h : library.FixedTyped) (name : String) :
    ∀ f ∈ library.overloads name, f.FixedTyped := by
  intro f hf
  unfold Catalog.overloads at hf
  cases hfound : library.functions.lookup name with
  | none =>
    rw [hfound] at hf
    cases hf
  | some fs =>
    rw [hfound] at hf
    obtain ⟨before, after, hsplit, -⟩ := List.lookup_eq_some_iff.mp hfound
    exact h f (List.mem_flatMap.mpr ⟨(name, fs), by simp [hsplit], hf⟩)

/-- The same names are known for what belongs together, and `n` is no variable. -/
structure Env.Linked (n : String) (L : Links) (env env' : Env) : Prop where
  library : env'.library = env.library
  constant : env.library.constant? n = none
  fixed : env.library.FixedTyped
  functions : Names.Linked L.functions env.functions env'.functions
  states : Names.Linked (fun _ _ => True) env.states env'.states
  globals : Names.Linked L.vars env.globals env'.globals
  fresh : env.globals.lookup n = none
  body : Option.Rel (Body.Linked n L) env.body env'.body

theorem Body.Linked.mono {b b' : Body} (h : b.Linked n L b') (hLM : L ≤ M) : b.Linked n M b' :=
  { h with
    params := h.params.mono hLM.1
    labels := h.labels.mono hLM.2.2 }

namespace Env.Linked

theorem mono (h : env.Linked n L env') (hLM : L ≤ M) : env.Linked n M env' :=
  { h with
    functions := h.functions.mono hLM.2.1
    globals := h.globals.mono hLM.1
    body := optionRel_mono h.body fun _ _ hb => hb.mono hLM }

theorem isStatic (h : env.Linked n L env') : env'.isStatic = env.isStatic := by
  have hbody := h.body
  unfold Env.isStatic
  generalize env.body = body at hbody
  generalize env'.body = body' at hbody
  cases hbody <;> rfl

theorem param? (h : env.Linked n L env') (name : String) :
    Option.Rel L.vars (env.param? name) (env'.param? name) := by
  have hbody := h.body
  unfold Env.param?
  generalize env.body = body at hbody
  generalize env'.body = body' at hbody
  cases hbody with
  | none => exact .none
  | some hb => exact hb.params.lookup name

theorem param?_eq_none (h : env.Linked n L env') : env.param? n = none := by
  have hbody := h.body
  unfold Env.param?
  generalize env.body = body at hbody
  generalize env'.body = body' at hbody
  cases hbody with
  | none => rfl
  | some hb => exact hb.fresh

theorem label? (h : env.Linked n L env') (name : String) :
    Option.Rel L.nodes (env.label? name) (env'.label? name) := by
  have hbody := h.body
  unfold Env.label?
  generalize env.body = body at hbody
  generalize env'.body = body' at hbody
  cases hbody with
  | none => exact .none
  | some hb => exact hb.labels.lookup name

end Env.Linked

/-! ### What names stand for -/

/-- The same constant, or declarations that belong together. -/
inductive Binding.Linked (P : NodeId → NodeId → Prop) : Binding → Binding → Prop where
  | global {i j : NodeId} (h : P i j) : Binding.Linked P (.global i) (.global j)
  | inner {i j : NodeId} (h : P i j) : Binding.Linked P (.inner i) (.inner j)
  | param {i j : NodeId} (h : P i j) : Binding.Linked P (.param i) (.param j)
  | constant {k : LibraryConstant} : Binding.Linked P (.constant k) (.constant k)

theorem Binding.Linked.isConstant {P : NodeId → NodeId → Prop} {b b' : Binding}
    (h : Binding.Linked P b b') : b'.isConstant = b.isConstant := by
  cases h <;> rfl

/-- Declarations that belong together have the same type. -/
theorem bindingType_linked {t t' : Tree} (h : t.Linked n L t') {b b' : Binding}
    (hb : Binding.Linked L.vars b b') : bindingType t' b' = bindingType t b := by
  cases hb with
  | constant => rfl
  | global hij | inner hij | param hij =>
    unfold bindingType
    simp only [h.varType hij]

theorem ScopeStack.Linked.lookup? {P : NodeId → NodeId → Prop} {s s' : ScopeStack}
    (h : s.Linked P s') (name : String) : Option.Rel P (s.lookup? name) (s'.lookup? name) := by
  rcases s with ⟨frames⟩
  rcases s' with ⟨frames'⟩
  change List.Forall₂ _ frames frames' at h
  unfold ScopeStack.lookup?
  simp only
  induction h with
  | nil => exact .none
  | @cons f f' _ _ hf _ ih =>
    rw [List.findSome?_cons, List.findSome?_cons]
    have hlocal := hf.2.lookup name
    generalize f.locals.lookup name = found at hlocal
    generalize f'.locals.lookup name = found' at hlocal
    cases hlocal with
    | none => exact ih
    | some hP => exact .some hP

theorem optionRel_or {α β : Type} {R : α → β → Prop} {a b : Option α} {a' b' : Option β}
    (h : Option.Rel R a a') (g : Option.Rel R b b') : Option.Rel R (a.or b) (a'.or b') := by
  cases h with
  | none => exact g
  | some h => exact .some h

/-- **A name stands for the same on both sides.** -/
theorem bindName_linked (he : env.Linked n L env') (h : run.Linked n L run') (name : String) :
    Option.Rel (Binding.Linked L.vars) (bindName env run.scopes name)
      (bindName env' run'.scopes name) := by
  unfold bindName
  rw [he.library]
  refine optionRel_or (optionRel_map (h.scopes.lookup? name) fun _ _ => .inner) <|
    optionRel_or (optionRel_map (he.param? name) fun _ _ => .param) <|
    optionRel_or (optionRel_map (he.globals.lookup name) fun _ _ => .global) ?_
  cases env.library.constant? name with
  | none => exact .none
  | some k => exact .some .constant

/-- The name `n` stands for nothing. -/
theorem bindName_eq_none (he : env.Linked n L env') (h : run.Linked n L run') :
    bindName env' run'.scopes n = none := by
  have hnone : bindName env run.scopes n = none := by
    unfold bindName
    rw [h.fresh, he.param?_eq_none, he.fresh, he.constant]
    rfl
  have hrel := bindName_linked he h n
  rw [hnone] at hrel
  cases hb : bindName env' run'.scopes n with
  | none => rfl
  | some b =>
    rw [hb] at hrel
    cases hrel

end Lsl
