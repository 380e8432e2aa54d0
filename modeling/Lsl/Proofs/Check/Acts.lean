/- # The acts of the checker

Everything the checker does to a tree is one of a dozen acts: it makes a node
out of nodes that have no parent yet, reports something, opens a scope, appends
a statement to the innermost one, closes it. Besides what the checker has built
(`Run`), an act sees what lies between nodes made and nodes adopted: the nodes
that are loose, and the open scopes with the nodes that were set aside when
they were opened.

An invariant of the acts is an invariant of the checker.

Key definitions: `Tree.facts`, `Tree.Formed`, `Progress`, `Act`, `Acts`.
Key theorems: `Act.grows`, `Acts.grows`.
-/
import Lsl.Check.Script
import Lsl.Proofs.Tree.Placing

namespace Lsl

/-! ### The local variables of a script -/

mutual

/-- The declarations of local variables in statements. -/
def localsOfStmts : List Stmt → List VarDecl
  | [] => []
  | s :: rest => localsOfStmt s ++ localsOfStmts rest

def localsOfStmt : Stmt → List VarDecl
  | .block (.mk stmts _) _ => localsOfStmts stmts
  | .plain stmt => localsOfPlain stmt

def localsOfPlain : PlainStmt → List VarDecl
  | .declare decl _ => [decl]
  | .branch _ thenBranch elseIfs elseBranch _ =>
    localsOfStmt thenBranch ++ localsOfElseIfs elseIfs ++ localsOfElse elseBranch
  | .whileLoop _ body _ | .doWhile body _ _ | .forLoop _ _ _ body _ => localsOfStmt body
  | .empty _ | .expr .. | .ret .. | .jump .. | .label .. | .stateChange .. => []

def localsOfElseIfs : List ElseIf → List VarDecl
  | [] => []
  | .mk _ body _ :: rest => localsOfStmt body ++ localsOfElseIfs rest

def localsOfElse : Option Stmt → List VarDecl
  | none => []
  | some body => localsOfStmt body

end

def StateDecl.locals (d : StateDecl) : List VarDecl :=
  d.handlers.flatMap fun h => localsOfStmts h.body.stmts

/-- The declarations of local variables in all bodies. -/
def Script.locals (script : Script) : List VarDecl :=
  script.functions.flatMap (fun f => localsOfStmts f.body.stmts)
    ++ script.defaultState.toList.flatMap (·.locals) ++ script.states.flatMap (·.locals)

/-! ### What a node has to be made of -/

/-- The parameters of the event handlers of a state. -/
def StateDecl.params (d : StateDecl) : List Param := d.handlers.flatMap (·.params)

/-- All parameters of a script. -/
def Script.params (script : Script) : List Param :=
  script.functions.flatMap (·.params) ++ script.defaultState.toList.flatMap (·.params)
    ++ script.states.flatMap (·.params)

namespace Tree

/-- What a resolved statement does to the flow of control, read off the tree. -/
def facts (t : Tree) (id index : Nat) : Facts :=
  match t.stmt? id with
  | some ⟨.ret _, _⟩ => { returns := true }
  | some ⟨.jump _ (some label) _, _⟩ =>
    match t.stmt? label with
    | some ⟨_, info⟩ =>
      { constantJump :=
          if info.dead.isDead then none
          else some ⟨id, index, label, info.scopeId, info.index⟩ }
    | none => {}
  | some ⟨.block scope, _⟩ =>
    match t.scope? scope with
    | some s => blockFacts s id index
    | none => {}
  | some ⟨.branch _ thenScope elseIfs (some last), _⟩ =>
    match t.scope? thenScope with
    | some first => branchFacts first ((elseIfs.map (·.2) ++ [last]).filterMap t.scope?) id index
    | none => {}
  | _ => {}

/-- Names and calls are bound to what there is, and components are floats. -/
def Bound (library : Catalog) (t : Tree) (e : ExprNode) : Prop :=
  match e.kind with
  | .ref _ (.inner d) => t.sort? d = some .stmt ∧ ∃ v, t.var? d = some v ∧ v.ty = e.ty
  | .ref _ (.global d) => t.sort? d = some .global ∧ ∃ v, t.var? d = some v ∧ v.ty = e.ty
  | .ref _ (.param d) => t.sort? d = some .param ∧ ∃ v, t.var? d = some v ∧ v.ty = e.ty
  | .ref _ (.constant k) => k ∈ library.constants
  | .call _ _ (.user f) => t.sort? f = some .function
  | .component .. => e.ty = .float
  | _ => True

def FormedStmt (script : Script) (t : Tree) : StmtKind → Prop
  | .empty | .label .. | .stateChange .. => True
  | .expr value => t.IsTerm value
  | .declare v => (∃ d ∈ script.locals, d.ty = v.ty) ∧ ∀ c ∈ v.init, t.IsTerm c
  | .ret value => ∀ c ∈ value, t.IsTerm c
  | .jump _ target _ => ∀ l ∈ target, ∃ s, t.stmt? l = some s ∧ s.kind.isLabel = true
  | .branch cond thenScope elseIfs elseScope =>
    t.IsTerm cond ∧ t.sort? thenScope = some .scope
      ∧ (∀ arm ∈ elseIfs, t.IsTerm arm.1 ∧ t.sort? arm.2 = some .scope)
      ∧ ∀ s ∈ elseScope, t.sort? s = some .scope
  | .whileLoop cond body | .doWhile body cond => t.IsTerm cond ∧ t.IsScope (·.isLoopBody) body
  | .forLoop init cond step body =>
    (∀ c ∈ init, t.IsTerm c) ∧ (∀ c ∈ cond, t.IsTerm c) ∧ (∀ c ∈ step, t.IsTerm c)
      ∧ t.IsScope (·.isLoopBody) body
  | .block scope => t.sort? scope = some .scope

/-- The parts of a node are of the sorts that it asks for, and what it says of
the script and the library is so. -/
def Formed (script : Script) (library : Catalog) (t : Tree) : NodeKind → Prop
  | .script n =>
    (∀ g ∈ n.globals, t.sort? g = some .global) ∧ (∀ f ∈ n.functions, t.sort? f = some .function)
      ∧ (∀ s ∈ n.defaultState, t.sort? s = some .state) ∧ ∀ s ∈ n.states, t.sort? s = some .state
  | .global v => (∃ d ∈ script.globals, d.ty = v.ty) ∧ ∀ c ∈ v.init, t.IsTerm c
  | .param v => (∃ d ∈ script.params, d.ty = v.ty) ∧ v.init = none
  | .function f =>
    (∀ p ∈ f.params, t.sort? p = some .param) ∧ ∀ b ∈ f.body, t.IsScope (·.isCallableBody) b
  | .state s => ∀ h ∈ s.handlers, t.sort? h = some .handler
  | .handler h =>
    (∀ p ∈ h.params, t.sort? p = some .param) ∧ t.IsScope (·.isCallableBody) h.body
  | .scope c => ∀ s ∈ c.statements, t.sort? s = some .stmt
  | .stmt s => t.FormedStmt script s.kind
  | .expr e => (∀ c ∈ e.kind.children, t.IsTerm c) ∧ t.Bound library e
  | .error => True

end Tree

/-! ### Acts -/

/-- An error that marks a node; the lack of a default state marks none. -/
def Notice.marks : Notice → Bool
  | .fault .missingDefaultState _ => false
  | .fault .. => true
  | .warning .. => false

/-- An open scope, and the loose nodes that were set aside when it was opened. -/
structure Level where
  tracker : Tracker
  aside : List NodeId

/-- What the checker has built, and what is still to be put together. -/
structure Progress where
  run : Run := {}
  /-- The nodes that were made since the innermost scope was opened, or since
  the last statement was appended to it, and have no parent. -/
  loose : List NodeId := []
  /-- The open scopes, the innermost first. -/
  stack : List Level := []
  /-- All labels of the body. -/
  labels : List NodeId := []
  /-- The functions and states that were given their parts. -/
  filled : List NodeId := []

namespace Progress

/-- The numbers of the open scopes, the innermost first. -/
def openIds (p : Progress) : List Nat := p.stack.map (·.tracker.scopeId)

/-- The nodes that still have to get a parent. -/
def roots (p : Progress) : List NodeId :=
  p.loose ++ (p.stack.flatMap fun l => l.tracker.statements ++ l.aside) ++ p.run.labels

/-- A jump leads to a label of the body whose scope is open. -/
def MayLead (p : Progress) (kind : NodeKind) : Prop :=
  ∀ name target constant info, kind = .stmt ⟨.jump name (some target) constant, info⟩ →
    target ∈ p.labels ∧ ∃ s, p.run.tree.stmt? target = some s ∧ s.info.scopeId ∈ p.openIds

end Progress

/-- The scope that the statements of a tracker make up. -/
def Tracker.scope (tr : Tracker) (kind : ScopeKind) : CodeScope where
  scopeId := tr.scopeId
  kind := kind
  singleStatement := tr.singleStatement
  statements := tr.statements
  deadSegments := tr.segments
  constantJumps := tr.constantJumps
  returnPath := tr.returnPath

/-- What the checker does, one thing at a time. -/
inductive Act (script : Script) (library : Catalog) : Progress → Progress → Prop where
  /-- Tells something that marks no node. -/
  | say (p : Progress) (n : Notice) (hn : n.marks = false) :
    Act script library p { p with run := { p.run with notices := p.run.notices ++ [n] } }
  /-- Reports errors and marks the node they are about. -/
  | fault (p : Progress) (id : NodeId) (ns : List Notice) (hid : id ∈ p.roots)
    (hne : ns ≠ []) (hns : ∀ n ∈ ns, n.marks = true) :
    Act script library p
      { p with run :=
        { p.run with tree := p.run.tree.markError id, notices := p.run.notices ++ ns } }
  /-- Puts an error in the place of what cannot be resolved. -/
  | reject (p : Progress) (dropped rest : List NodeId) (ns : List Notice) (span : Span)
    (hl : p.loose = dropped ++ rest) (hns : ∀ n ∈ ns, n.marks = true)
    (hwhy : ns ≠ [] ∨ ∃ d ∈ dropped, p.run.tree.hasErrors d = true) :
    Act script library p
      { p with
        run := { p.run with
          tree := (p.run.tree.allocError span).1, notices := p.run.notices ++ ns }
        loose := p.run.tree.size :: rest }
  /-- Makes a node out of loose ones, reports what is wrong with it, and notes it at what
  it refers to. -/
  | make (p : Progress) (kind : NodeKind) (rest : List NodeId) (span : Span) (ns : List Notice)
    (hl : p.loose = kind.children ++ rest) (hnew : kind.outline = kind)
    (hf : p.run.tree.Formed script library kind) (hj : p.MayLead kind)
    (hs : kind.sort ≠ .scope) (he : kind.sort ≠ .error) (hns : ∀ n ∈ ns, n.marks = true) :
    Act script library p
      { p with
        run := { p.run with
          tree := (p.run.tree.alloc kind span).1.settle (!ns.isEmpty) p.run.tree.size kind
          notices := p.run.notices ++ ns }
        loose := p.run.tree.size :: rest }
  /-- Loose nodes have no order. -/
  | shuffle (p : Progress) (loose : List NodeId) (hl : p.loose.Perm loose) :
    Act script library p { p with loose }
  /-- Binds or unbinds local names. -/
  | names (p : Progress) (scopes : ScopeStack) :
    Act script library p { p with run := { p.run with scopes } }
  /-- Opens the next scope of the body. -/
  | openScope (p : Progress) (singleStatement : Bool) :
    Act script library p
      { p with
        run := { p.run with
          lastScope := p.run.lastScope + 1, scopes := p.run.scopes.push (p.run.lastScope + 1) }
        loose := []
        stack := ⟨{ scopeId := p.run.lastScope + 1, singleStatement }, p.loose⟩ :: p.stack }
  /-- Appends a loose statement to the innermost scope. -/
  | append (p : Progress) (id : NodeId) (s : StmtNode) (rest : List NodeId) (tr tr' : Tracker)
    (aside : List NodeId) (outer : List Level) (t' : Tree) (reach : Reach)
    (hl : p.loose = id :: rest) (hst : p.stack = ⟨tr, aside⟩ :: outer)
    (hs : p.run.tree.stmt? id = some s) (hk : s.kind.isLabel = false)
    (h : p.run.tree.append tr id (p.run.tree.facts id tr.nextIndex) = ⟨t', tr', .ok reach⟩) :
    Act script library p
      { p with
        run := { p.run with tree := t' }, loose := rest, stack := ⟨tr', aside⟩ :: outer }
  /-- Appends the next label to the innermost scope, where it was found beforehand. -/
  | appendLabel (p : Progress) (id : NodeId) (s : StmtNode) (rest : List NodeId)
    (tr tr' : Tracker) (aside : List NodeId) (outer : List Level) (t' : Tree) (reach : Reach)
    (hl : p.run.labels = id :: rest) (hst : p.stack = ⟨tr, aside⟩ :: outer)
    (hs : p.run.tree.stmt? id = some s) (hk : s.kind.isLabel = true)
    (hscope : s.info.scopeId = tr.scopeId) (hindex : s.info.index = tr.nextIndex)
    (h : p.run.tree.append tr id (p.run.tree.facts id tr.nextIndex) = ⟨t', tr', .ok reach⟩) :
    Act script library p
      { p with
        run := { p.run with tree := t', labels := rest }, stack := ⟨tr', aside⟩ :: outer }
  /-- Closes the innermost scope, of which no label is missing. -/
  | closeScope (p : Progress) (tr : Tracker) (aside : List NodeId) (outer : List Level)
    (kind : ScopeKind) (span : Span) (hl : p.loose = []) (hst : p.stack = ⟨tr, aside⟩ :: outer)
    (hpending : ∀ l ∈ p.run.labels, ∀ s, p.run.tree.stmt? l = some s →
      s.info.scopeId ≠ tr.scopeId) :
    Act script library p
      { p with
        run := { p.run with tree := (p.run.tree.alloc (.scope (tr.scope kind)) span).1 }
        loose := p.run.tree.size :: aside
        stack := outer }
  /-- Starts on a body, whose labels are known. -/
  | enterBody (p : Progress) (labels rest : List NodeId) (hl : p.loose = labels ++ rest)
    (hst : p.stack = []) (hlabels : p.run.labels = [])
    (hk : ∀ l ∈ labels, ∃ s, p.run.tree.stmt? l = some s ∧ s.kind.isLabel = true) :
    Act script library p
      { p with
        run := { p.run with scopes := {}, labels := labels, lastScope := 0 }
        loose := rest
        labels := labels }
  /-- Gives a function its body, which returns if it has to, or else is wrong. -/
  | fillFunction (p : Progress) (id : NodeId) (f : FunctionNode) (body : NodeId) (c : CodeScope)
    (rest : List NodeId) (hl : p.loose = body :: rest) (hid : id ∈ rest) (hopen : id ∉ p.filled)
    (hf : p.run.tree.kind? id = some (.function f)) (hb : p.run.tree.scope? body = some c)
    (hcallable : c.kind.isCallableBody = true)
    (hret : f.returnType.isVoid = true ∨ c.hasReturnPath = true
      ∨ ∃ n ∈ p.run.notices, n.marks = true) :
    Act script library p
      { p with
        run := { p.run with
          tree := (p.run.tree.fill id (.function { f with body := some body })).1 }
        loose := rest
        filled := id :: p.filled }
  /-- Gives a state its handlers. -/
  | fillState (p : Progress) (id : NodeId) (s : StateNode) (handlers rest : List NodeId)
    (hl : p.loose = handlers ++ rest) (hid : id ∈ rest) (hopen : id ∉ p.filled)
    (hs : p.run.tree.kind? id = some (.state s))
    (hh : ∀ h ∈ handlers, p.run.tree.sort? h = some .handler) :
    Act script library p
      { p with
        run := { p.run with tree := (p.run.tree.fill id (.state { s with handlers })).1 }
        loose := rest
        filled := id :: p.filled }

/-- Any number of acts. -/
abbrev Acts (script : Script) (library : Catalog) : Progress → Progress → Prop :=
  Relation.ReflTransGen (Act script library)

variable {script : Script} {library : Catalog} {p p' : Progress}

/-- A node with which nothing is wrong. -/
theorem Act.makeSound (p : Progress) (kind : NodeKind) (rest : List NodeId) (span : Span)
    (hl : p.loose = kind.children ++ rest) (hnew : kind.outline = kind)
    (hf : p.run.tree.Formed script library kind) (hj : p.MayLead kind)
    (hs : kind.sort ≠ .scope) (he : kind.sort ≠ .error) :
    Act script library p
      { p with
        run := { p.run with
          tree := (p.run.tree.alloc kind span).1.noteUse p.run.tree.size kind }
        loose := p.run.tree.size :: rest } := by
  simpa [Tree.settle] using Act.make p kind rest span [] hl hnew hf hj hs he (by simp)

/-! ### Acts let the tree grow -/

/-- An act places no statement but a loose one or the next label. -/
theorem Act.grows (h : Act script library p p') :
    p.run.tree.Grows (fun i => i ∈ p.loose ∨ i ∈ p.run.labels) p'.run.tree := by
  cases h with
  | say | shuffle | names | openScope | enterBody => exact .refl _ _
  | fault => exact Tree.grows_markError
  | reject => exact Tree.grows_allocError _
  | make => exact (Tree.grows_alloc _ _).idem (Tree.grows_settle _ _)
  | append id s rest tr tr' aside outer t' reach hl hst hs hk h =>
    refine (Tree.grows_append h hs (by simp [hk])).mono fun i hi => .inl ?_
    rw [hl, hi]
    exact List.mem_cons_self
  | appendLabel id s rest tr tr' aside outer t' reach hl hst hs hk hscope hindex h =>
    refine (Tree.grows_append h hs fun _ => ⟨hscope, hindex⟩).mono fun i hi => .inr ?_
    rw [hl, hi]
    exact List.mem_cons_self
  | closeScope => exact Tree.grows_alloc _ _
  | fillFunction id f body c rest hl hid hopen hf =>
    obtain ⟨n, hn, hk⟩ := Tree.kind?_eq_some.mp hf
    exact Tree.grows_fill hn (.inl (hl ▸ List.mem_cons_of_mem _ hid)) (by rw [hk]; rfl)
      (by rw [hk]; rfl) (fun _ => rfl) (by rw [hk]; exact List.Subset.refl _)
  | fillState id s handlers rest hl hid hopen hs =>
    obtain ⟨n, hn, hk⟩ := Tree.kind?_eq_some.mp hs
    exact Tree.grows_fill hn (.inl (hl ▸ List.mem_append_right _ hid)) (by rw [hk]; rfl)
      (by rw [hk]; rfl) (by rw [hk]; exact fun h => h) (by rw [hk]; exact List.Subset.refl _)

theorem Acts.grows (h : Acts script library p p') :
    p.run.tree.Grows (fun _ => True) p'.run.tree := by
  induction h with
  | refl => exact .refl _ _
  | tail _ hact ih => exact ih.idem (hact.grows.mono fun _ _ => trivial)

/-- What was told stays told. -/
theorem Act.notices (h : Act script library p p') : p.run.notices ⊆ p'.run.notices := by
  cases h with
  | say | fault | reject | make => exact List.subset_append_left _ _
  | _ => exact List.Subset.refl _

theorem Acts.notices (h : Acts script library p p') : p.run.notices ⊆ p'.run.notices := by
  induction h with
  | refl => exact List.Subset.refl _
  | tail _ hact ih => exact List.Subset.trans ih hact.notices

end Lsl
